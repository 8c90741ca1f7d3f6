import Brainfuck.Debugger.Command
import Brainfuck.Debugger.Rendering
import Brainfuck.Debugger.Session
import Brainfuck.Text.Lines

/-! The debugger's console: lines go in, and what a session shows comes out. -/
namespace Brainfuck.Debugger

/-- A console with a session, and what it has written so far: its answers and its complaints. -/
structure Console where
  session : Session
  output : String := ""
  errors : String := ""

inductive Console.Verdict where
  | proceed
  | leave
  | abort (cause : Stop)

namespace Console

def print (c : Console) (line : String) : Console :=
  { c with output := c.output ++ line ++ "\n" }

def complain (c : Console) (line : String) : Console :=
  { c with errors := c.errors ++ line ++ "\n" }

def printState (c : Console) (x : Snapshot) : Console :=
  (c.print (String.ofList (List.replicate 40 '-'))).print (stateText x c.session.instructions)

def printStates (c : Console) (xs : List Snapshot) : Console :=
  xs.foldl printState c

def helpText : String :=
  "利用可能なコマンド:\n" ++
  "  next [N]    : N ステップ進める (省略時 1)\n" ++
  "  run [N]     : ブレークポイントまたは N ステップ到達まで実行\n" ++
  "  state       : 現在の状態を表示\n" ++
  "  history [N] : 直近 N ステップの履歴を表示\n" ++
  "  break PC    : 指定 PC にブレークポイントを設定\n" ++
  "  breaks      : ブレークポイント一覧\n" ++
  "  clear [PC]  : ブレークポイントを削除 (PC 省略で全削除)\n" ++
  "  restart     : セッションをリセット\n" ++
  "  quit/exit   : 終了\n"

/-- Reports a failure. Only the machine's own failures are reported; any other ends the console. -/
def report (c : Console) : Stop → Console × Verdict
  | .fault f =>
    match f.kind with
    | .stepLimitExceeded => (c.complain "ステップ上限に達しました。", .proceed)
    | k =>
      if k.isMachine then (c.complain s!"実行エラー: {f.message}", .proceed)
      else (c, .abort (.fault f))
  | .unfinished => (c, .abort .unfinished)

/-- Shows the last of the states that a step command went through. -/
def showSteps (c : Console) (xs : List Snapshot) : Console :=
  match xs.getLast? with
  | some x => c.printState x
  | none => if c.session.finished then c.print "プログラムは終了しています。" else c

/-- Shows the last of the states that a run went through, and the breakpoint that ended it, which is
thereby dealt with. -/
def showRun (c : Console) (xs : List Snapshot) : Console :=
  match xs.getLast? with
  | some x =>
    let c := c.printState x
    match c.session.hit with
    | some p =>
      let c := c.print s!"ブレークポイント {p} に到達しました。"
      { c with session := { c.session with hit := none } }
    | none => c
  | none => if c.session.finished then c.print "プログラムは終了しました。" else c

def withSession (c : Console) (s : Session) : Console :=
  { c with session := s }

/-- Carries out a command; a run without a limit takes at most `fuel` steps. -/
def execute (fuel : Nat) (c : Console) : Command → Console × Verdict
  | .next count =>
    match c.session.stepForward count with
    | (s, .ok xs) => ((c.withSession s).showSteps xs, .proceed)
    | (s, .error e) => (c.withSession s).report e
  | .run limit =>
    match c.session.runUntilBreak fuel limit with
    | (s, .ok xs) => ((c.withSession s).showRun xs, .proceed)
    | (s, .error e) => (c.withSession s).report e
  | .state => (c.printState c.session.current, .proceed)
  | .history count => (c.printStates (c.session.recent count), .proceed)
  | .setNothing => (c.print "ブレークポイントを指定してください。", .proceed)
  | .setBreakpoint p =>
    ((c.withSession (c.session.addBreakpoint p)).print s!"ブレークポイント {p} を設定しました。", .proceed)
  | .breakpoints =>
    match c.session.breakpoints.positions with
    | [] => (c.print "ブレークポイントはありません。", .proceed)
    | ps => (c.print ("ブレークポイント: " ++ ", ".intercalate (ps.map toString)), .proceed)
  | .clearAll =>
    ((c.withSession c.session.clearBreakpoints).print "ブレークポイントを全て削除しました。", .proceed)
  | .clear p =>
    match c.session.removeBreakpoint p with
    | (s, true) => ((c.withSession s).print s!"ブレークポイント {p} を削除しました。", .proceed)
    | (s, false) => ((c.withSession s).print s!"ブレークポイント {p} は存在しません。", .proceed)
  | .restart =>
    let c := (c.withSession c.session.restart).print "セッションを再開しました。"
    (c.printState c.session.current, .proceed)
  | .quit => (c, .leave)
  | .help => (c.print helpText, .proceed)
  | .unknown => (c.print "不明なコマンドです。'help' を参照してください。", .proceed)
  | .badNumber => (c.complain "数値が正しくありません。", .proceed)

/-- Carries out a line. A line whose quotation marks do not match ends the console. -/
def executeLine (fuel : Nat) (c : Console) (line : String) : Console × Verdict :=
  match Command.ofLine line with
  | .error d => (c, .abort (.fault (.unwordable d)))
  | .ok none => (c, .proceed)
  | .ok (some command) => c.execute fuel command

def prompt (c : Console) : Console :=
  { c with output := c.output ++ "(viz) " }

/-- Carries out lines until one ends the console or none is left. What is typed behind the lines may be
no text; then the next question for a line fails. -/
def converse (fuel : Nat) (c : Console) (defect : Option Text.Utf8.Defect) :
    List String → Console × Except Stop Unit
  | [] =>
    match defect with
    | none => (c.prompt.print "", .ok ())
    | some d => (c.prompt, .error (.fault (.undecodableInput d)))
  | line :: rest =>
    match c.prompt.executeLine fuel line with
    | (c, .proceed) => converse fuel c defect rest
    | (c, .leave) => (c, .ok ())
    | (c, .abort e) => (c, .error e)

def opening (s : Session) : Console :=
  let c : Console := { session := s }
  (c.print "Brainfuck Visualizer (type 'help' for commands)").printState s.current

def run (fuel : Nat) (s : Session) (typed : List UInt8) : Console × Except Stop Unit :=
  match Text.Utf8.decodeStream typed with
  | (cs, none) => converse fuel (opening s) none (Text.lines (String.ofList cs))
  | (cs, some d) => converse fuel (opening s) (some d) (Text.endedLines cs)

end Console

end Brainfuck.Debugger
