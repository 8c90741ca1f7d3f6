import Brainfuck.Index
import Brainfuck.Setting

/-! A tape: a fixed number of cells, each an integer between two bounds. -/
namespace Brainfuck

structure Layout where
  size : Setting Int := .ok 30000
  minimum : Setting Int := .ok 0
  maximum : Setting Int := .ok 255
  default : Setting Int := .ok 0

/-- A tape with its bounds and the value that its cells had at first. -/
structure Tape where
  minimum : Int
  maximum : Int
  default : Int
  cells : Array Int
  deriving DecidableEq, Repr

def Tape.maxCount : Int := Int.pow 2 63 - 1

/-- How many cells a tape may have on a host. This is up to the host, but for the cells that cannot be
counted. -/
structure Room where
  cells : Int
  cells_le : cells ≤ Tape.maxCount

def Room.all : Room :=
  ⟨Tape.maxCount, Int.le_refl _⟩

/-- Room for `n` cells, if they can be counted. -/
def Room.upTo (n : Int) : Room :=
  ⟨min n Tape.maxCount, Int.min_le_right _ _⟩

namespace Tape

def checkRoom (room : Room) (size : Int) : Except Fault Unit :=
  if maxCount < size then .error .tooManyCells
  else if room.cells < size then .error .outOfMemory
  else .ok ()

/-- A tape of default cells. It has at least one cell, and its default lies within its bounds. -/
def blank (layout : Layout) (room : Room := .all) : Except Fault Tape := do
  let size ← layout.size
  if size ≤ 0 then throw (.invalidSize size)
  let minimum ← layout.minimum
  let maximum ← layout.maximum
  if maximum < minimum then throw (.emptyRange minimum maximum)
  let default ← layout.default
  if default < minimum ∨ maximum < default then throw (.defaultOutOfRange default minimum maximum)
  checkRoom room size
  return { minimum, maximum, default, cells := Array.replicate size.toNat default }

def size (t : Tape) : Nat :=
  t.cells.size

/-- Whether a value lies within the bounds; none if it is not a number. -/
def inRange? (t : Tape) (value : Datum) : Option Bool :=
  value.between? t.minimum t.maximum

def cellIndex (t : Tape) (index : Datum) : Except Fault Nat :=
  position "memory index" t.size index

def read (t : Tape) (index : Datum) : Except Fault Int := do
  let i ← t.cellIndex index
  return t.cells[i]?.getD t.default

/-- The cell and the value that a write would set. The index is checked before the value, and only
integers within the bounds are values. -/
def target (t : Tape) (index value : Datum) : Except Fault (Nat × Int) := do
  let i ← t.cellIndex index
  match value with
  | .integer v =>
    if t.minimum ≤ v ∧ v ≤ t.maximum then return (i, v)
    else throw (.cellOutOfRange v i t.minimum t.maximum)
  | _ => throw (.notACellValue value)

def set (t : Tape) (i : Nat) (v : Int) : Tape :=
  { t with cells := t.cells.setIfInBounds i v }

def write (t : Tape) (index value : Datum) : Except Fault Tape := do
  let (i, v) ← t.target index value
  return t.set i v

/-- The cells from `start` up to `stop`. A start below zero counts as zero and a stop beyond the end
as the end; a stop below zero counts from the end. -/
def window (t : Tape) (start stop : Int) : List Int :=
  let stop := min (t.size : Int) stop
  let stop := if stop < 0 then stop + t.size else stop
  (t.cells.extract (max 0 start).toNat stop.toNat).toList

/-- Where a window starts that a caller gives by any value. Below nought all numbers count as nought,
and above it only integers count. -/
def startOf : Datum → Except Fault Int
  | .integer n => .ok n
  | .truth b => .ok b.toNat
  | .real s => if (Binary64.ofText s).exceeds 0 then .error .wrongType else .ok 0
  | _ => .error .wrongType

/-- Where a window stops that a caller gives by any value. Beyond the end all numbers count as the
end, and in front of it only integers count. -/
def stopOf (size : Nat) : Datum → Except Fault Int
  | .integer n => .ok n
  | .truth b => .ok b.toNat
  | .real s => if (Binary64.ofText s).isBelow size then .error .wrongType else .ok size
  | _ => .error .wrongType

def windowOf (t : Tape) (start stop : Datum) : Except Fault (List Int) := do
  let start ← startOf start
  let stop ← stopOf t.size stop
  return t.window start stop

/-- The value after `v`; the minimum follows the maximum. -/
def next (t : Tape) (v : Int) : Int :=
  if v = t.maximum then t.minimum else v + 1

/-- The value before `v`; the maximum precedes the minimum. -/
def previous (t : Tape) (v : Int) : Int :=
  if v = t.minimum then t.maximum else v - 1

def description (t : Tape) : String :=
  s!"Memory(size={t.size}, minimum={t.minimum}, maximum={t.maximum}, default={t.default})"

end Tape

end Brainfuck
