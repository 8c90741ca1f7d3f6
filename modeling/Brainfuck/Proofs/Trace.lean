import Brainfuck.Machine.Snapshot
import Brainfuck.Proofs.Run

/-! Traces: all that a machine shows of itself on its way. -/
namespace Brainfuck

/-- The snapshot without the tape, of which different ones show different parts. -/
def Snapshot.blind (x : Snapshot) : Snapshot :=
  { x with tapeStart := 0, tape := [] }

theorem Snapshot.eq_of_blind {x y : Snapshot} (h : x.blind = y.blind) :
    x.command = y.command ∧ x.position = y.position := by
  have hcommand := congrArg Snapshot.command h
  have hposition := congrArg Snapshot.position h
  exact ⟨hcommand, hposition⟩

namespace Machine

theorem snapshot_blind (m : Machine) (command : Option String) (reach reach' : Int) :
    (m.snapshot command reach).blind = (m.snapshot command reach').blind := rfl

/-- The next snapshots of a machine, at most `n`: one behind each instruction, and one without an
instruction when it has halted. A cycle that fails ends them, too. -/
def trace (reach : Int) : Nat → Machine → List Snapshot
  | 0, _ => []
  | n + 1, m =>
    if m.halted then [m.snapshot none reach]
    else
      match m.cycle with
      | (_, .error _) => []
      | (m, .ok c) => m.snapshot (some c.toString) reach :: trace reach n m

/-- The snapshot at the start and the next ones, at most `n`. -/
def states (reach : Int) (n : Nat) (m : Machine) : List Snapshot :=
  m.snapshot none reach :: m.trace reach n

variable {m m₁ m₂ : Machine} {c : Instruction} {k : Nat}

theorem trace_of_halted (hm : m.halted = true) (reach : Int) (n : Nat) :
    m.trace reach (n + 1) = [m.snapshot none reach] := by
  simp only [trace, hm, if_true]

theorem trace_of_ok (hc : m.cycle = (m₁, .ok c)) (reach : Int) (n : Nat) :
    m.trace reach (n + 1) = m₁.snapshot (some c.toString) reach :: m₁.trace reach n := by
  simp [trace, not_halted_of_cycle_ok hc, hc]

theorem trace_add (h : m.after k = some m₁) (reach : Int) (n : Nat) :
    m.trace reach (k + n) = m.trace reach k ++ m₁.trace reach n := by
  induction k generalizing m with
  | zero =>
    obtain rfl := Option.some.inj h
    rw [Nat.zero_add]
    rfl
  | succ k ih =>
    obtain ⟨m₂, c, hc, hk⟩ := exists_cycle_of_after_succ h
    rw [Nat.add_right_comm, trace_of_ok hc, trace_of_ok hc, ih hk, List.cons_append]

theorem states_succ_of_ok (h : m.after k = some m₁) (hc : m₁.cycle = (m₂, .ok c)) (reach : Int) :
    m.states reach (k + 1) = m.states reach k ++ [m₂.snapshot (some c.toString) reach] := by
  rw [states, trace_add h, trace_of_ok hc]
  rfl

theorem states_succ_of_halted (h : m.after k = some m₁) (hm : m₁.halted = true) (reach : Int) :
    m.states reach (k + 1) = m.states reach k ++ [m₁.snapshot none reach] := by
  rw [states, trace_add h, trace_of_halted hm]
  rfl

/-- How far a machine looks changes nothing but the part of the tape that it shows. -/
theorem states_blind (m : Machine) (reach reach' : Int) (n : Nat) :
    (m.states reach n).map Snapshot.blind = (m.states reach' n).map Snapshot.blind := by
  have htrace : (m.trace reach n).map Snapshot.blind = (m.trace reach' n).map Snapshot.blind := by
    induction n generalizing m with
    | zero => rfl
    | succ n ih =>
      cases hm : m.halted with
      | true =>
        rw [trace_of_halted hm, trace_of_halted hm]
        rfl
      | false =>
        rcases hc : m.cycle with ⟨m₁, e | c⟩
        · simp [trace, hm, hc]
        · rw [trace_of_ok hc, trace_of_ok hc, List.map_cons, List.map_cons, ih m₁]
          rfl
  rw [states, states, List.map_cons, List.map_cons, htrace]
  rfl

end Machine

end Brainfuck
