import Brainfuck.CommandLine.Options
import Brainfuck.CommandLine.Verbosity
import Brainfuck.Machine.Run
import Brainfuck.Program.Loading

/-! The command line that runs a program. -/
namespace Brainfuck.CommandLine

/-- What a program leaves behind: what it has written, its complaints, and its exit code or the
reason for which it has none. -/
structure Report where
  output : String
  errors : String
  exit : Except Stop Nat

namespace Interpreter

structure Settings where
  source : Option String := none
  code : Option String := none
  input : Option String := none
  size : Setting Int := .ok 30000
  minimum : Setting Int := .ok 0
  maximum : Setting Int := .ok 255
  maxSteps : Setting (Option Int) := .ok none
  check : Bool := false
  logLevel : Setting String := .ok "WARNING"

def usage : String :=
  "usage: bfmachine [-h] [-e CODE] [--input INPUT] [--memory-size MEMORY_SIZE]\n" ++
  "                 [--cell-min CELL_MIN] [--cell-max CELL_MAX]\n" ++
  "                 [--max-steps MAX_STEPS] [--check] [--log-level LOG_LEVEL]\n" ++
  "                 [source]\n"

def details : String :=
  "Brainfuck virtual machine\n" ++
  "\n" ++
  "positional arguments:\n" ++
  "  source                Path to Brainfuck source file\n" ++
  "\n" ++
  "options:\n" ++
  "  -h, --help            show this help message and exit\n" ++
  "  -e CODE, --eval CODE  Brainfuck source given inline instead of a file\n" ++
  "  --input INPUT         Input string supplied to the program instead of\n" ++
  "                        standard input\n" ++
  "  --memory-size MEMORY_SIZE\n" ++
  "                        Number of memory cells (default: 30000)\n" ++
  "  --cell-min CELL_MIN   Minimum cell value\n" ++
  "  --cell-max CELL_MAX   Maximum cell value\n" ++
  "  --max-steps MAX_STEPS\n" ++
  "                        Abort after this many instructions (default:\n" ++
  "                        unlimited)\n" ++
  "  --check               Only validate the program and report its instruction\n" ++
  "                        count\n" ++
  "  --log-level LOG_LEVEL\n" ++
  "                        Logging level (default: WARNING)\n"

/-- The code that stands for one that is withheld: the brackets of an empty list. -/
def withheldCode : String := "[]"

def grammar : Grammar Settings where
  program := "bfmachine"
  usage := usage
  details := details
  switches := [
    ⟨["-h", "--help"], .help⟩,
    ⟨["-e", "--eval"], .text fun v s => { s with code := some (v.getD withheldCode) }⟩,
    ⟨["--input"], .text fun v s => { s with input := some (v.getD "") }⟩,
    ⟨["--memory-size"], .number fun n s => { s with size := Setting.of n }⟩,
    ⟨["--cell-min"], .number fun n s => { s with minimum := Setting.of n }⟩,
    ⟨["--cell-max"], .number fun n s => { s with maximum := Setting.of n }⟩,
    ⟨["--max-steps"], .number fun n s => { s with maxSteps := (Setting.of n).map some }⟩,
    ⟨["--check"], .flag fun s => { s with check := true }⟩,
    ⟨["--log-level"], .text fun v s => { s with logLevel := levelOf v }⟩]
  operand := some ⟨"source", false, fun v s => { s with source := some v }⟩

def Settings.layout (s : Settings) : Layout :=
  { size := s.size, minimum := s.minimum, maximum := s.maximum }

/-- The input of the machine: a given text that goes on with the default value, or the bytes that are
piped in. -/
def Settings.inputFor (s : Settings) (tape : Tape) (piped : List UInt8) : Input :=
  match s.input with
  | some text => .ofValues (Input.codePoints text) (some (.integer tape.default))
  | none => .ofStream piped

/-- The machine of a run, and what happened on the way to it. Tape, source and step limit are checked
in this order. -/
def prepare (files : Files) (piped : List UInt8) (s : Settings) (room : Room) :
    List Event × Except Fault Machine :=
  match Tape.blank s.layout room with
  | .error f => ([], .error f)
  | .ok tape =>
    match Program.choose files s.source s.code with
    | .error f => ([], .error f)
    | .ok (program, loading) =>
      (loading, s.maxSteps >>= Machine.start program tape (s.inputFor tape piped) (.empty .stream))

/-- What a run went through: what happened, what was written, and how it ended. -/
structure Course where
  events : List Event
  output : String
  ending : Except Stop Unit

/-- The course of a check: the program is judged and counted. -/
def checked (loading : List Event) (program : Program) : Course :=
  match program.validate with
  | .error f => ⟨loading, "", .error (.fault f)⟩
  | .ok () => ⟨loading, s!"OK: {program.size} instructions\n", .ok ()⟩

/-- Checks a program or runs it, in at most `fuel` cycles. -/
def course (fuel : Nat) (files : Files) (piped : List UInt8) (s : Settings) (room : Room) : Course :=
  match prepare files piped s room with
  | (loading, .error f) => ⟨loading, "", .error (.fault f)⟩
  | (loading, .ok m) =>
    if s.check then checked loading m.program
    else
      let (m, ending) := m.run fuel
      ⟨loading ++ m.journal.toList, m.sink.text, ending⟩

/-- The report on a run. The machine's own failures and an input that is used up are reported, behind
the log. -/
def Course.report (c : Course) (rank : Nat) : Report :=
  let log := logText rank c.events
  match c.ending with
  | .ok () => ⟨c.output, log, .ok 0⟩
  | .error (.fault f) =>
    if f.isMachine then ⟨c.output, log ++ s!"{f.kind.name}: {f.message}\n", .ok 1⟩
    else if f.kind = .endOfInput then ⟨c.output, log ++ s!"Input error: {f.message}\n", .ok 1⟩
    else ⟨c.output, log, .error (.fault f)⟩
  | .error .unfinished => ⟨c.output, log, .error .unfinished⟩

def runWith (fuel : Nat) (files : Files) (piped : List UInt8) (s : Settings) (room : Room) : Report :=
  match s.logLevel >>= (rankOf · Level.warning.rank) with
  | .error f => ⟨"", "", .error (.fault f)⟩
  | .ok rank => (course fuel files piped s room).report rank

/-- Runs a command line on some files, with some bytes piped in, on a host with some room. -/
def run (fuel : Nat) (files : Files) (piped : List UInt8) (arguments : List String)
    (room : Room := .all) : Report :=
  match grammar.read {} arguments with
  | .error r => ⟨"", grammar.complaint r, .ok 2⟩
  | .ok .help => ⟨grammar.help, "", .ok 0⟩
  | .ok (.settings s) => runWith fuel files piped s room

end Interpreter

end Brainfuck.CommandLine
