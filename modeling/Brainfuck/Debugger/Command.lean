import Brainfuck.Text.Case
import Brainfuck.Text.Numeral
import Brainfuck.Text.Words

/-! The commands of the debugger's console. -/
namespace Brainfuck.Debugger

inductive Command where
  | next (count : Int)
  | run (limit : Option Int)
  | state
  | history (count : Int)
  | setBreakpoint (position : Int)
  | setNothing
  | breakpoints
  | clearAll
  | clear (position : Int)
  | restart
  | quit
  | help
  | unknown
  | badNumber
  deriving DecidableEq, Repr

namespace Command

def withNumber (word : String) (f : Int → Command) : Command :=
  match Text.integer? word with
  | some n => f n
  | none => badNumber

/-- The command that a word and its arguments give. Only the first argument counts, and capitals do
not matter. -/
def ofWords (word : String) (arguments : List String) : Command :=
  match Text.lower word, arguments with
  | "n", [] | "next", [] => next 1
  | "n", a :: _ | "next", a :: _ => withNumber a fun n => next (max 1 n)
  | "r", [] | "run", [] => run none
  | "r", a :: _ | "run", a :: _ => withNumber a fun n => run (some n)
  | "state", _ => state
  | "history", [] => history 10
  | "history", a :: _ => withNumber a history
  | "break", [] => setNothing
  | "break", a :: _ => withNumber a setBreakpoint
  | "breaks", _ => breakpoints
  | "clear", [] => clearAll
  | "clear", a :: _ => withNumber a clear
  | "restart", _ => restart
  | "quit", _ | "exit", _ => quit
  | "help", _ => help
  | _, _ => unknown

/-- The command on a line; none on a blank line. -/
def ofLine (line : String) : Except Text.Words.Defect (Option Command) := do
  let stripped := Text.strip line.toList
  if stripped.isEmpty then return none
  match ← Text.Words.split (String.ofList stripped) with
  | [] => return some unknown
  | word :: arguments => return some (ofWords word arguments)

end Command

end Brainfuck.Debugger
