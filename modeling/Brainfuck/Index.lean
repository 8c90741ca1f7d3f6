import Brainfuck.Fault

/-! Positions in a sequence, checked against its size. -/
namespace Brainfuck

/-- The position that a value names in a sequence of some size. Only integers name positions, and
negative ones name none. -/
def position (what : String) (size : Int) (given : Datum) : Except Fault Nat :=
  match given with
  | .integer i =>
    if 0 ≤ i ∧ i < size then .ok i.toNat else .error (.indexOutOfBounds what i size)
  | _ => .error (.notAnIndex what given)

end Brainfuck
