import Brainfuck.Machine.Snapshot
import Brainfuck.Text.Numeral
import Brainfuck.Text.Quoted

/-! Snapshots as lines of text. -/
namespace Brainfuck.Debugger

/-- The instructions around a position, at most `reach` to either side. The one at the position
stands in brackets, and a mark stands behind the last one when the position is beyond it. -/
def codeWindow (code : String) (position reach : Int) : String :=
  let cs := code.toList
  if cs.isEmpty then "(empty)"
  else
    let first := (max 0 (position - reach)).toNat
    let stop := (min (cs.length : Int) (position + reach + 1)).toNat
    let shown := ((cs.drop first).take (stop - first)).zipIdx first
    let pieces := shown.flatMap fun (c, i) => if (i : Int) = position then ['[', c, ']'] else [c]
    let mark := if (cs.length : Int) ≤ position then "[END]" else ""
    String.ofList pieces ++ mark

/-- The instructions around a position as far as a caller gives position and reach. Where there are no
instructions neither is needed. -/
def codeWindowOf (code : String) (position reach : Setting Int) : Except Fault String :=
  if code.isEmpty then .ok (codeWindow code 0 0) else return codeWindow code (← position) (← reach)

def codeReach : Int := 16

/-- A cell with its address; the current one stands in brackets. -/
def cellText (pointer address value : Int) : String :=
  let text := s!"{address}:{Text.zeroFilled 3 value}"
  if address = pointer then "[" ++ text ++ "]" else " " ++ text ++ " "

def tapeText (x : Snapshot) : String :=
  " ".intercalate ((x.tape.zipIdx).map fun (value, i) => cellText x.pointer (x.tapeStart + i) value)

/-- The lines of a snapshot: counters, output if there is any, tape and code. -/
def stateLines (x : Snapshot) (code : String) : List String :=
  let command := Text.quote (x.command.getD "(init)")
  let output := x.output.getD ""
  [s!"step={x.step} pc={x.position}/{x.codeLength} command={command} pointer={x.pointer}"] ++
    (if output.isEmpty then [] else ["output=" ++ Text.quote output]) ++
    ["tape=" ++ tapeText x, "code=" ++ codeWindow code x.position codeReach]

def stateText (x : Snapshot) (code : String) : String :=
  "\n".intercalate (stateLines x code)

end Brainfuck.Debugger
