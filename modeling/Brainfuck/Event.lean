import Brainfuck.Fault

/-! What happens on the way to a result and is worth a line in a log. -/
namespace Brainfuck

inductive Level where
  | debug
  | info
  | warning
  | error
  | critical
  deriving DecidableEq, Repr

namespace Level

/-- The place of a level on the scale from nought to fifty. -/
def rank : Level → Nat
  | debug => 10
  | info => 20
  | warning => 30
  | error => 40
  | critical => 50

def name : Level → String
  | debug => "DEBUG"
  | info => "INFO"
  | warning => "WARNING"
  | error => "ERROR"
  | critical => "CRITICAL"

end Level

inductive Event where
  | loaded (path : Path) (length : Nat)
  | started (instructions cells : Nat)
  | discarded (value : Datum)
  | finished (steps : Int)
  | dryRunCapped (cap : Int)
  | dryRunStopped (steps : Int) (cause : Fault)
  | sessionCreated (id : String) (instructions : Nat)
  | sessionStopped (id : String) (cause : Fault)
  | sessionDeleted (id : String)

namespace Event

def level : Event → Level
  | dryRunStopped .. | sessionStopped .. => .warning
  | sessionCreated .. | sessionDeleted .. => .info
  | _ => .debug

/-- The part of the program that an event comes from. -/
def origin : Event → String
  | loaded .. => "bfmachine.program"
  | started .. | discarded .. | finished .. => "bfmachine.machine"
  | _ => "bfmachine.webui.app"

def message : Event → String
  | loaded path length => s!"Loaded program source from {path.toString} ({length} characters)"
  | started instructions cells => s!"Running program of {instructions} instructions on {cells} cells"
  | discarded value => s!"Discarding input value {value.written} outside the cell range"
  | finished steps => s!"Program finished after {steps} steps"
  | dryRunCapped cap => s!"Dry run reached the {cap} step cap"
  | dryRunStopped steps cause => s!"Dry run stopped after {steps} steps: {cause.message}"
  | sessionCreated id instructions => s!"Created session {id} ({instructions} instructions)"
  | sessionStopped id cause => s!"Session {id} stopped: {cause.message}"
  | sessionDeleted id => s!"Deleted session {id}"

def line (e : Event) : String :=
  s!"{e.level.name} {e.origin}: {e.message}"

end Event

end Brainfuck
