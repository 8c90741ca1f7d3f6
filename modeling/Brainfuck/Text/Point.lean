import Brainfuck.Text.Quoted

/-! Points: characters, and halves of surrogate pairs that stand alone. -/
namespace Brainfuck.Text

/-- A point of a text: a character, or the number of half of a surrogate pair. -/
inductive Point where
  | char (c : Char)
  | half (n : Nat)
  deriving DecidableEq, Repr

def isFirstHalf (n : Nat) : Bool :=
  0xd800 ≤ n && n ≤ 0xdbff

def isSecondHalf (n : Nat) : Bool :=
  0xdc00 ≤ n && n ≤ 0xdfff

def joinHalves (first second : Nat) : Char :=
  Char.ofNat (0x10000 + (first - 0xd800) * 0x400 + (second - 0xdc00))

namespace Point

def toNat : Point → Nat
  | char c => c.toNat
  | half n => n

def ofNat? (n : Nat) : Option Point :=
  if isFirstHalf n || isSecondHalf n then some (half n)
  else if n < 0x110000 then some (char (Char.ofNat n))
  else none

def char? : Point → Option Char
  | char c => some c
  | half _ => none

def isHalf : Point → Bool
  | char _ => false
  | half _ => true

def ofString (s : String) : List Point :=
  s.toList.map char

end Point

/-- Halves in a row, which no bytes stand for: where they are, the first one, and how many there
are. -/
structure Gap where
  position : Nat
  first : Nat
  count : Nat
  deriving DecidableEq, Repr

/-- The first gap in points, the first of which has the given position. -/
def findGap? : Nat → List Point → Option Gap
  | _, [] => none
  | i, .char _ :: ps => findGap? (i + 1) ps
  | i, .half n :: ps => some ⟨i, n, 1 + (ps.takeWhile Point.isHalf).length⟩

def gap? (ps : List Point) : Option Gap :=
  findGap? 0 ps

/-- The wording of a gap; a single half is shown, of several only the positions. -/
def Gap.message (g : Gap) : String :=
  if g.count = 1 then
    let shown := String.ofList (numericEscape g.first)
    s!"'utf-8' codec can't encode character '{shown}' in position {g.position}: surrogates not allowed"
  else
    s!"'utf-8' codec can't encode characters in position {g.position}-{g.position + g.count - 1}: " ++
      "surrogates not allowed"

end Brainfuck.Text
