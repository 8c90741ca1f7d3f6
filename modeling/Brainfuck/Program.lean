import Brainfuck.Index
import Brainfuck.Instruction

/-! Programs: a source text and the instructions in it. -/
namespace Brainfuck

/-- A source text with its instructions. -/
structure Program where
  source : String
  code : Array Instruction
  deriving DecidableEq, Repr

namespace Program

def ofSource (source : String) : Program :=
  ⟨source, (source.toList.filterMap Instruction.ofChar?).toArray⟩

def size (p : Program) : Nat :=
  p.code.size

/-- The instructions as a text without comments. -/
def text (p : Program) : String :=
  String.ofList (p.code.toList.map Instruction.toChar)

def instructionAt (p : Program) (index : Datum) : Except Fault Instruction := do
  let i ← position "instruction index" p.size index
  return p.code[i]?.getD default

/-- Checks that brackets match, given the positions of the open ones, the innermost first, and the
position of the next instruction. -/
def checkBrackets : List Nat → Nat → List Instruction → Except Fault Unit
  | [], _, [] => .ok ()
  | i :: _, _, [] => .error (.unmatchedOpen i)
  | opened, i, .loopOpen :: cs => checkBrackets (i :: opened) (i + 1) cs
  | [], i, .loopClose :: _ => .error (.unmatchedClose i)
  | _ :: opened, i, .loopClose :: cs => checkBrackets opened (i + 1) cs
  | opened, i, _ :: cs => checkBrackets opened (i + 1) cs

def validate (p : Program) : Except Fault Unit :=
  if p.code.isEmpty then .error .emptyProgram else checkBrackets [] 0 p.code.toList

def isValid (p : Program) : Except Fault Bool :=
  match p.validate with
  | .ok () => .ok true
  | .error f => if f.kind = .invalidProgram then .ok false else .error f

def description (p : Program) : String :=
  s!"Program(source={Text.quote p.source})"

end Program

/-- The direction in which a bracket looks for its partner. -/
inductive Direction where
  | forward
  | backward
  deriving DecidableEq, Repr

namespace Direction

def sign : Direction → Int
  | forward => 1
  | backward => -1

/-- The bracket that faces the direction. -/
def opening : Direction → Instruction
  | forward => .loopOpen
  | backward => .loopClose

def closing : Direction → Instruction
  | forward => .loopClose
  | backward => .loopOpen

/-- How many brackets are open behind an instruction, of `depth` in front of it. -/
def depthAfter (d : Direction) (depth : Nat) (c : Instruction) : Nat :=
  if c = d.opening then depth + 1 else if c = d.closing then depth - 1 else depth

end Direction

namespace Program

/-- Walks from a position to the bracket that closes the last of `depth` open ones. The walk ends at
the latest when it leaves the program, so that as many steps as there are positions suffice. -/
def walk (p : Program) (d : Direction) : Nat → Nat → Int → Except Fault Int
  | 0, _, i => .error (.indexOutOfBounds "instruction index" i p.size)
  | fuel + 1, depth, i =>
    match p.instructionAt (.integer i) with
    | .error f => .error f
    | .ok c =>
      if d.depthAfter depth c = 0 then .ok i
      else walk p d fuel (d.depthAfter depth c) (i + d.sign)

/-- The signed distance from a position to the bracket that matches a bracket there. -/
def jumpDistance (p : Program) (i : Int) (d : Direction) : Except Fault Int :=
  (p.walk d (p.size + 1) 1 (i + d.sign)).map (· - i)

end Program

end Brainfuck
