import Brainfuck.Debugger.Session
import Brainfuck.Machine.Run

/-! Dry runs, which tell in advance how many steps a session has. -/
namespace Brainfuck.Api

/-- The number of steps of a program, whether it may have more, and what happened. -/
structure DryRun where
  total : Int
  capped : Bool
  events : List Event

def DryRun.defaultCap : Int := 10000

/-- Runs a program once, in at most `cap` steps. A failure ends the count. -/
def DryRun.of (program : Program) (setup : Debugger.Setup) (cap : Setting Int) :
    Except Fault DryRun := do
  let m ← { setup with maxSteps := cap.map some : Debugger.Setup }.machine program
  let cap ← cap
  let (m, ending) := m.run (cap.toNat + 1)
  let events := m.journal.toList
  match ending with
  | .error (.fault .stepLimit) => return ⟨cap, true, events ++ [.dryRunCapped cap]⟩
  | .error (.fault f) => return ⟨m.steps, cap ≤ m.steps, events ++ [.dryRunStopped m.steps f]⟩
  | _ => return ⟨m.steps, cap ≤ m.steps, events⟩

end Brainfuck.Api
