import Brainfuck.CommandLine.Interpreter

/-! The program on the command line: files, standard input and standard output belong here. -/
namespace Brainfuck.Main

open Brainfuck.CommandLine

/-- Writes a text with one byte for each character. -/
def writeBytes (stream : IO.FS.Stream) (text : String) : IO Unit := do
  stream.write ⟨(text.toList.map fun c => UInt8.ofNat c.toNat).toArray⟩
  stream.flush

/-- What one path of the file system leads to. -/
def filesAt (path : String) : IO Files := do
  try
    let content ← IO.FS.readBinFile path
    return fun _ => .ok content.toList
  catch
    | .resourceExhausted .. | .inappropriateType .. => return fun p => .error (.isADirectory p)
    | _ => return fun p => .error (.missing p)

/-- How many cycles go by before the output is written. -/
def burst : Nat := 100000

/-- Runs a machine to its end. What it writes appears at the latest after each burst of cycles, and
standard input is read when the machine needs it. -/
partial def drive (input output : IO.FS.Stream) (m : Machine) : IO (Machine × Except Stop Unit) := do
  let (m, ending) := m.loop burst
  writeBytes output m.sink.text
  let m := { m with sink := .empty m.sink.kind }
  match ending with
  | .error .unfinished => drive input output m
  | .error (.fault .inputEnded) =>
    let bytes ← input.read 1
    if bytes.isEmpty then return (m, ending)
    else drive input output { m with input := .ofStream bytes.toList }
  | _ => return (m, ending)

/-- Writes what is left to report, and answers the exit code. -/
def conclude (report : Report) : IO UInt32 := do
  writeBytes (← IO.getStdout) report.output
  (← IO.getStderr).putStr report.errors
  match report.exit with
  | .ok n => return n.toUInt32
  | .error (.fault f) =>
    (← IO.getStderr).putStrLn f.message
    return 1
  | .error .unfinished => return 1

def perform (s : Interpreter.Settings) : IO UInt32 := do
  let files ← filesAt (s.source.getD "")
  match s.logLevel >>= (rankOf · Level.warning.rank), Interpreter.prepare files [] s .all with
  | .ok rank, (loading, .ok m) =>
    if s.check then conclude ((Interpreter.checked loading m.program).report rank)
    else
      match m.enter with
      | .error f => conclude (Interpreter.Course.report ⟨loading, "", .error (.fault f)⟩ rank)
      | .ok m =>
        let (m, ending) := Machine.leave (← drive (← IO.getStdin) (← IO.getStdout) m)
        conclude (Interpreter.Course.report ⟨loading ++ m.journal.toList, "", ending⟩ rank)
  | _, _ => conclude (Interpreter.runWith 0 files [] s .all)

end Brainfuck.Main

def main (arguments : List String) : IO UInt32 := do
  match Brainfuck.CommandLine.Interpreter.grammar.read {} arguments with
  | .ok (.settings s) => Brainfuck.Main.perform s
  | _ => Brainfuck.Main.conclude (Brainfuck.CommandLine.Interpreter.run 0 (fun p => .error (.missing p)) [] arguments)
