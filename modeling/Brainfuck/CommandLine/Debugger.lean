import Brainfuck.CommandLine.Interpreter
import Brainfuck.Debugger.Console

/-! The command line that opens the debugger's console. -/
namespace Brainfuck.CommandLine.Debugger

open Brainfuck.Debugger (Setup Session Console)

structure Settings where
  source : String := ""
  input : String := ""
  maxSteps : Setting Int := .ok 5000000
  reach : Setting Int := .ok 10
  historyLimit : Setting Int := .ok 200
  size : Setting Int := .ok 30000
  minimum : Setting Int := .ok 0
  maximum : Setting Int := .ok 255

def usage : String :=
  "usage: bfmachine-viz [-h] [--input INPUT] [--max-steps MAX_STEPS]\n" ++
  "                     [--tape-window TAPE_WINDOW]\n" ++
  "                     [--history-limit HISTORY_LIMIT]\n" ++
  "                     [--memory-size MEMORY_SIZE] [--cell-min CELL_MIN]\n" ++
  "                     [--cell-max CELL_MAX]\n" ++
  "                     source\n"

def details : String :=
  "Brainfuck visualizer\n" ++
  "\n" ++
  "positional arguments:\n" ++
  "  source                Path to Brainfuck source file\n" ++
  "\n" ++
  "options:\n" ++
  "  -h, --help            show this help message and exit\n" ++
  "  --input INPUT         入力として渡す文字列\n" ++
  "  --max-steps MAX_STEPS\n" ++
  "                        ステップ上限 (デフォルト: 5,000,000)\n" ++
  "  --tape-window TAPE_WINDOW\n" ++
  "                        テープ表示の幅\n" ++
  "  --history-limit HISTORY_LIMIT\n" ++
  "                        履歴に保持するステップ数\n" ++
  "  --memory-size MEMORY_SIZE\n" ++
  "                        メモリセル数 (デフォルト: 30000)\n" ++
  "  --cell-min CELL_MIN   セルの最小値 (デフォルト: 0)\n" ++
  "  --cell-max CELL_MAX   セルの最大値 (デフォルト: 255)\n"

def grammar : Grammar Settings where
  program := "bfmachine-viz"
  usage := usage
  details := details
  switches := [
    ⟨["-h", "--help"], .help⟩,
    ⟨["--input"], .text fun v s => { s with input := v.getD "" }⟩,
    ⟨["--max-steps"], .number fun n s => { s with maxSteps := Setting.of n }⟩,
    ⟨["--tape-window"], .number fun n s => { s with reach := Setting.of n }⟩,
    ⟨["--history-limit"], .number fun n s => { s with historyLimit := Setting.of n }⟩,
    ⟨["--memory-size"], .number fun n s => { s with size := Setting.of n }⟩,
    ⟨["--cell-min"], .number fun n s => { s with minimum := Setting.of n }⟩,
    ⟨["--cell-max"], .number fun n s => { s with maximum := Setting.of n }⟩]
  operand := some ⟨"source", true, fun v s => { s with source := v }⟩

def Settings.setup (s : Settings) (code : String) (room : Room) : Setup :=
  { code
    input := Input.codePoints s.input
    reach := s.reach
    maxSteps := s.maxSteps.map some
    historyLimit := s.historyLimit
    size := s.size
    minimum := s.minimum
    maximum := s.maximum
    room }

def runWith (fuel : Nat) (files : Files) (typed : List UInt8) (s : Settings) (room : Room) : Report :=
  match Program.load files s.source with
  | .error f =>
    if f.kind = .sourceUnavailable then ⟨"", s!"ファイルを開けません: {f.message}\n", .ok 1⟩
    else ⟨"", "", .error (.fault f)⟩
  | .ok (program, _) =>
    match Session.start (s.setup program.source room) with
    | .error f =>
      if f.isMachine then ⟨"", s!"プログラムを読み込めません: {f.message}\n", .ok 1⟩
      else ⟨"", "", .error (.fault f)⟩
    | .ok session =>
      match Console.run fuel session typed with
      | (c, .ok ()) => ⟨c.output, c.errors, .ok 0⟩
      | (c, .error e) => ⟨c.output, c.errors, .error e⟩

/-- Runs a command line on some files, with some bytes typed in, on a host with some room. -/
def run (fuel : Nat) (files : Files) (typed : List UInt8) (arguments : List String)
    (room : Room := .all) : Report :=
  match grammar.read {} arguments with
  | .error r => ⟨"", grammar.complaint r, .ok 2⟩
  | .ok .help => ⟨grammar.help, "", .ok 0⟩
  | .ok (.settings s) => runWith fuel files typed s room

end Brainfuck.CommandLine.Debugger
