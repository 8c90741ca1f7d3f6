import Brainfuck.CommandLine.Interpreter

/-! The command line that serves the programming interface. -/
namespace Brainfuck.CommandLine.Server

/-- The settings of a server. Host and port may be withheld. -/
structure Settings where
  host : Option String := some "127.0.0.1"
  port : Option Int := some 8000
  logLevel : Setting String := .ok "INFO"

def usage : String :=
  "usage: bfmachine-webui [-h] [--host HOST] [--port PORT]\n" ++
  "                       [--log-level LOG_LEVEL]\n"

def details : String :=
  "Run the bfmachine WebUI API server\n" ++
  "\n" ++
  "options:\n" ++
  "  -h, --help            show this help message and exit\n" ++
  "  --host HOST           Bind address (default: 127.0.0.1)\n" ++
  "  --port PORT           Port to listen on (default: 8000)\n" ++
  "  --log-level LOG_LEVEL\n" ++
  "                        Logging level (default: INFO)\n"

def grammar : Grammar Settings where
  program := "bfmachine-webui"
  usage := usage
  details := details
  switches := [
    ⟨["-h", "--help"], .help⟩,
    ⟨["--host"], .text fun v s => { s with host := v }⟩,
    ⟨["--port"], .number fun n s => { s with port := n }⟩,
    ⟨["--log-level"], .text fun v s => { s with logLevel := levelOf v }⟩]
  operand := none

/-- What a server is asked to serve, and where. -/
structure Service where
  title : String
  version : String
  host : Option String
  port : Option Int
  logLevel : String
  rank : Nat
  deriving DecidableEq, Repr

def Settings.service (s : Settings) (level : String) (rank : Nat) : Service :=
  { title := "bfmachine WebUI API"
    version := "0.1.0"
    host := s.host
    port := s.port
    logLevel := Text.lower level
    rank }

/-- Prepares a service with some settings; `available` says whether there is a server at all. -/
def runWith (available : Bool) (s : Settings) : Report × Option Service :=
  match s.logLevel >>= fun level => (rankOf level Level.info.rank).map (level, ·) with
  | .error f => (⟨"", "", .error (.fault f)⟩, none)
  | .ok (level, rank) =>
    if available then (⟨"", "", .ok 0⟩, some (s.service level rank))
    else (⟨"", "uvicorn is required to run the bfmachine WebUI server\n", .ok 1⟩, none)

def run (available : Bool) (arguments : List String) : Report × Option Service :=
  match grammar.read {} arguments with
  | .error r => (⟨"", grammar.complaint r, .ok 2⟩, none)
  | .ok .help => (⟨grammar.help, "", .ok 0⟩, none)
  | .ok (.settings s) => runWith available s

end Brainfuck.CommandLine.Server
