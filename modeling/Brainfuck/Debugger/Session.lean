import Brainfuck.Debugger.Breakpoints
import Brainfuck.Machine.Stepper

/-! Debugger sessions: a machine that is walked step by step, with breakpoints and a history. -/
namespace Brainfuck.Debugger

structure Setup where
  code : String
  input : List Datum := []
  reach : Setting Int := .ok 10
  maxSteps : Setting (Option Int) := .ok none
  historyLimit : Setting Int := .ok 200
  size : Setting Int := .ok 30000
  minimum : Setting Int := .ok 0
  maximum : Setting Int := .ok 255
  room : Room := .all

def Setup.layout (setup : Setup) : Layout :=
  { size := setup.size, minimum := setup.minimum, maximum := setup.maximum }

/-- The machine at the start of a program, with a buffer for its output and an input that goes on
with the default value. -/
def Setup.machine (setup : Setup) (program : Program) : Except Fault Machine := do
  let tape ← Tape.blank setup.layout setup.room
  let maxSteps ← setup.maxSteps
  let input := Input.ofValues setup.input (some (.integer tape.default))
  Machine.start program tape input (.empty .buffer) maxSteps

/-- A session. It keeps the machine as it was at the start. -/
structure Session where
  reach : Int
  historyLimit : Int
  initial : Machine
  machine : Machine
  stepper : Stepper
  current : Snapshot
  history : Array Snapshot
  finished : Bool
  breakpoints : Breakpoints
  hit : Option Int

namespace Session

/-- The states kept behind a new one. The oldest one goes when there are too many. -/
def remember (limit : Int) (history : Array Snapshot) (x : Snapshot) : Array Snapshot :=
  let history := history.push x
  if limit < history.size then history.extract 1 history.size else history

def begin (reach historyLimit : Int) (initial : Machine) (breakpoints : Breakpoints) : Session :=
  let x := initial.snapshot none reach
  { reach
    historyLimit
    initial
    machine := initial
    stepper := { reach := .ok reach }
    current := x
    history := remember historyLimit #[] x
    finished := false
    breakpoints
    hit := none }

/-- A new session. The program is checked first, then the tape, the step limit, and what is shown and
kept. -/
def start (setup : Setup) : Except Fault Session := do
  let program := Program.ofSource setup.code
  program.validate
  let initial ← setup.machine program
  let reach ← setup.reach
  let historyLimit ← setup.historyLimit
  return begin reach historyLimit initial {}

/-- The session back at its start; the breakpoints stay. -/
def restart (s : Session) : Session :=
  begin s.reach s.historyLimit s.initial s.breakpoints

def instructions (s : Session) : String :=
  s.initial.program.text

/-- Takes one step. Nothing comes of it when the session is finished, and a failure of the machine
finishes it. -/
def step (s : Session) : Session × Except Stop (Option Snapshot) :=
  if s.finished then (s, .ok none)
  else
    let r := s.stepper.next s.machine
    match r.shown with
    | .ok x =>
      ({ s with
          machine := r.machine
          stepper := r.stepper
          current := x
          history := remember s.historyLimit s.history x
          finished := x.command.isNone }, .ok (some x))
    | .error (.fault .stepperExhausted) =>
      ({ s with machine := r.machine, stepper := r.stepper, finished := true }, .ok none)
    | .error (.fault f) =>
      ({ s with machine := r.machine, stepper := r.stepper, finished := f.isMachine }, .error (.fault f))
    | .error .unfinished => ({ s with machine := r.machine, stepper := r.stepper }, .error .unfinished)

/-- Takes up to `n` steps, and none beyond a breakpoint or the end. `shown` holds what earlier steps
showed, the latest first. -/
def forward : Nat → List Snapshot → Session → Session × Except Stop (List Snapshot)
  | 0, shown, s => (s, .ok shown.reverse)
  | n + 1, shown, s =>
    match s.step with
    | (s, .error e) => (s, .error e)
    | (s, .ok none) => (s, .ok shown.reverse)
    | (s, .ok (some x)) =>
      if s.finished then (s, .ok (x :: shown).reverse)
      else if s.breakpoints.contains x.position then
        ({ s with hit := some x.position }, .ok (x :: shown).reverse)
      else forward n (x :: shown) s

def stepForward (s : Session) (count : Int) : Session × Except Stop (List Snapshot) :=
  if count ≤ 0 then (s, .ok []) else forward count.toNat [] { s with hit := none }

/-- Takes single steps up to a breakpoint or the end. When `n` steps are taken the session is left
unfinished unless they were `bounded`. -/
def runFrom (bounded : Bool) : Nat → List Snapshot → Session → Session × Except Stop (List Snapshot)
  | 0, shown, s => (s, if bounded then .ok shown.reverse else .error .unfinished)
  | n + 1, shown, s =>
    match s.stepForward 1 with
    | (s, .error e) => (s, .error e)
    | (s, .ok []) => (s, .ok shown.reverse)
    | (s, .ok (x :: xs)) =>
      let shown := (x :: xs).reverse ++ shown
      if s.hit.isSome then (s, .ok shown.reverse) else runFrom bounded n shown s

/-- Runs up to a breakpoint, the end or a limit on the steps; without a limit, in at most `fuel`
steps. -/
def runUntilBreak (fuel : Nat) (s : Session) (limit : Option Int) :
    Session × Except Stop (List Snapshot) :=
  match limit with
  | none => runFrom false fuel [] s
  | some limit => runFrom true limit.toNat [] s

def addBreakpoint (s : Session) (p : Int) : Session :=
  { s with breakpoints := s.breakpoints.insert p }

/-- The session without a breakpoint, and whether it was there. -/
def removeBreakpoint (s : Session) (p : Int) : Session × Bool :=
  if s.breakpoints.contains p then ({ s with breakpoints := s.breakpoints.erase p }, true)
  else (s, false)

def clearBreakpoints (s : Session) : Session :=
  { s with breakpoints := {} }

/-- The states that a history command shows: the latest `count`. For a count of nought these are all,
and for a count below it all but the first. -/
def recent (s : Session) (count : Int) : List Snapshot :=
  let states := s.history.toList
  if count ≤ 0 then states.drop (-count).toNat else states.drop (states.length - count.toNat)

end Session

end Brainfuck.Debugger
