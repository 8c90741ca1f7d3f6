import Brainfuck.Machine.Basic

/-! Snapshots: what a machine shows of itself between two steps. -/
namespace Brainfuck

/-- A snapshot: the steps so far, the next instruction's position, the instruction just carried out,
the data pointer, a part of the tape from some cell on, the text of a buffer, and the length of the
program. -/
structure Snapshot where
  step : Int
  position : Int
  command : Option String
  pointer : Int
  tapeStart : Int
  tape : List Int
  output : Option String
  codeLength : Int
  deriving DecidableEq, Repr

/-- A snapshot with the cells at most `reach` away from the data pointer. -/
def Machine.snapshot (m : Machine) (command : Option String) (reach : Int) : Snapshot :=
  let first := max 0 (m.dataPointer - reach)
  let stop := min (m.tape.size : Int) (m.dataPointer + reach + 1)
  { step := m.steps
    position := m.instructionPointer
    command
    pointer := m.dataPointer
    tapeStart := first
    tape := m.tape.window first stop
    output := m.sink.bufferText?
    codeLength := m.program.size }

end Brainfuck
