import Brainfuck.Machine.Snapshot

/-! Steppers: walks through a run, one snapshot at a time. Several may walk one machine. -/
namespace Brainfuck

inductive Stepper.Phase where
  | fresh
  | walking
  | spent
  deriving DecidableEq, Repr

/-- A stepper that shows the cells at most `reach` away from the data pointer. -/
structure Stepper where
  reach : Setting Int
  phase : Stepper.Phase := .fresh

namespace Stepper

/-- A machine and a stepper behind a step, and what the step shows. -/
structure Step where
  machine : Machine
  stepper : Stepper
  shown : Except Stop Snapshot

def view (s : Stepper) (m : Machine) (command : Option String) : Except Stop Snapshot :=
  (s.reach.map (m.snapshot command)).mapError .fault

/-- A step of a stepper whose program has been checked: one cycle, or the last snapshot of a machine
that has halted. After a failure and after the last snapshot the stepper is spent. -/
def advance (s : Stepper) (m : Machine) : Step :=
  if m.halted then ⟨m, { s with phase := .spent }, s.view m none⟩
  else
    match m.cycle with
    | (m, .error e) => ⟨m, { s with phase := .spent }, .error e⟩
    | (m, .ok i) =>
      match s.view m (some i.toString) with
      | .error e => ⟨m, { s with phase := .spent }, .error e⟩
      | .ok x => ⟨m, { s with phase := .walking }, .ok x⟩

/-- The next step. The program is checked at the first one. -/
def next (s : Stepper) (m : Machine) : Step :=
  match s.phase with
  | .spent => ⟨m, s, .error (.fault .stepperExhausted)⟩
  | .walking => s.advance m
  | .fresh =>
    match m.program.validate with
    | .error f => ⟨m, { s with phase := .spent }, .error (.fault f)⟩
    | .ok () => s.advance m

structure Steps where
  machine : Machine
  stepper : Stepper
  shown : Except Stop (List Snapshot)

/-- Takes steps until the stepper is spent; `shown` holds what earlier steps showed, the latest
first. -/
def drainFrom : Nat → List Snapshot → Stepper → Machine → Steps
  | 0, _, s, m => ⟨m, s, .error .unfinished⟩
  | fuel + 1, shown, s, m =>
    if s.phase = .spent then ⟨m, s, .ok shown.reverse⟩
    else
      match s.next m with
      | ⟨m, s, .error e⟩ => ⟨m, s, .error e⟩
      | ⟨m, s, .ok x⟩ => drainFrom fuel (x :: shown) s m

def drain (fuel : Nat) (s : Stepper) (m : Machine) : Steps :=
  drainFrom fuel [] s m

end Stepper

end Brainfuck
