import Brainfuck.Datum

/-! The eight instructions. -/
namespace Brainfuck

inductive Instruction where
  | right
  | left
  | increment
  | decrement
  | read
  | write
  | loopOpen
  | loopClose
  deriving DecidableEq, Repr, Inhabited

namespace Instruction

/-- The instruction that a character stands for; every other character is a comment. -/
def ofChar? : Char → Option Instruction
  | '>' => some right
  | '<' => some left
  | '+' => some increment
  | '-' => some decrement
  | ',' => some read
  | '.' => some write
  | '[' => some loopOpen
  | ']' => some loopClose
  | _ => none

def toChar : Instruction → Char
  | right => '>'
  | left => '<'
  | increment => '+'
  | decrement => '-'
  | read => ','
  | write => '.'
  | loopOpen => '['
  | loopClose => ']'

def ofString? (s : String) : Option Instruction :=
  match s.toList with
  | [c] => ofChar? c
  | _ => none

def toString (i : Instruction) : String :=
  i.toChar.toString

end Instruction

/-- What a machine is asked to carry out: an instruction, or something that is none. -/
inductive Token where
  | instruction (i : Instruction)
  | other (value : Datum)

/-- The instruction that a text stands for; nothing, for any other text and for no text. -/
def Token.ofText? (text : Option String) : Token :=
  match text.bind Instruction.ofString? with
  | some i => .instruction i
  | none => .other .null

end Brainfuck
