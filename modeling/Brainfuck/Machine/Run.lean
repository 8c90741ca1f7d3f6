import Brainfuck.Machine.Basic

/-! Runs: cycles up to the end of the program. -/
namespace Brainfuck.Machine

/-- Cycles until the machine halts or fails. Without fuel a machine that has not halted is left
unfinished. -/
def loop : Nat → Machine → Machine × Except Stop Unit
  | 0, m => if m.halted then (m, .ok ()) else (m, .error .unfinished)
  | fuel + 1, m =>
    if m.halted then (m, .ok ())
    else
      match m.cycle with
      | (m, .error e) => (m, .error e)
      | (m, .ok _) => loop fuel m

/-- Checks the program and records the start of a run. -/
def enter (m : Machine) : Except Fault Machine :=
  m.program.validate.map fun () => m.record (.started m.program.size m.tape.size)

def leave (r : Machine × Except Stop Unit) : Machine × Except Stop Unit :=
  match r with
  | (m, .ok ()) => (m.record (.finished m.steps), .ok ())
  | (m, .error e) => (m, .error e)

/-- Checks the program and runs it to its end, in at most `fuel` cycles. -/
def run (fuel : Nat) (m : Machine) : Machine × Except Stop Unit :=
  match m.enter with
  | .error f => (m, .error (.fault f))
  | .ok m => leave (loop fuel m)

/-- A run ends, with or without a failure. -/
def Terminates (m : Machine) : Prop :=
  ∃ fuel, (run fuel m).2 ≠ .error .unfinished

end Brainfuck.Machine
