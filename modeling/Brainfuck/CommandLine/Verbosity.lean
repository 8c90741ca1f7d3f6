import Brainfuck.Event
import Brainfuck.Setting
import Brainfuck.Text.Case

/-! The least importance that events need to be logged. -/
namespace Brainfuck.CommandLine

def standardLayout : String := "%(levelname)s:%(name)s:%(message)s"

/-- The rank that a word names, whatever its capitals; any unknown word stands for a default. Two words
name layouts of log lines, which are no levels. -/
def rankOf (word : String) (default : Nat) : Except Fault Nat :=
  match Text.upper word with
  | "NOTSET" => .ok 0
  | "DEBUG" => .ok Level.debug.rank
  | "INFO" => .ok Level.info.rank
  | "WARNING" | "WARN" => .ok Level.warning.rank
  | "ERROR" => .ok Level.error.rank
  | "CRITICAL" | "FATAL" => .ok Level.critical.rank
  | "BASIC_FORMAT" => .error (.unknownLevel standardLayout)
  | "_STYLES" => .error .wrongType
  | _ => .ok default

def levelOf (name : Option String) : Setting String :=
  name.elim (.error .withheldLevel) .ok

/-- The lines of the events of at least some rank. -/
def logText (rank : Nat) (events : List Event) : String :=
  String.join ((events.filter fun e => rank ≤ e.level.rank).map fun e => e.line ++ "\n")

end Brainfuck.CommandLine
