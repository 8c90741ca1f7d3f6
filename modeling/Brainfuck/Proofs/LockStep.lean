import Brainfuck.Proofs.Run

/-! Lock step. Where a change of machines makes no difference to the cycles, it makes none to the runs: the changed
machine goes the same way, and what it comes to is changed alike. -/
namespace Brainfuck.Machine

/-- A change of machines that makes no difference to a cycle. How many cycles it makes none to may depend on the
machine: `P` holds of a machine and a number of cycles for which it holds good. -/
structure Commutes (g : Machine → Machine) (P : Nat → Machine → Prop) : Prop where
  program : ∀ m, (g m).program = m.program
  halted : ∀ m, (g m).halted = m.halted
  cycle : ∀ {n m}, P (n + 1) m → m.halted = false → (g m).cycle = (g m.cycle.1, m.cycle.2)
  later : ∀ {n m m₁ c}, P (n + 1) m → m.cycle = (m₁, .ok c) → P n m₁

variable {g : Machine → Machine} {P : Nat → Machine → Prop} {m m₁ : Machine} {n fuel : Nat} {e : Stop}

theorem after_of_error (h : m.cycle = (m₁, .error e)) (n : Nat) : m.after (n + 1) = none := by
  simp only [after, h]

theorem after_of_halted (h : m.halted = true) (n : Nat) : m.after (n + 1) = none := by
  rcases hc : m.cycle with ⟨m₁, e | c⟩
  · exact after_of_error hc n
  · cases h.symm.trans (not_halted_of_cycle_ok hc)

namespace Commutes
variable (hg : Commutes g P)
include hg

theorem after (h : P n m) : (g m).after n = (m.after n).map g := by
  induction n generalizing m with
  | zero => rfl
  | succ n ih =>
    cases hm : m.halted with
    | true =>
      rw [after_of_halted hm, after_of_halted ((hg.halted m).trans hm)]
      rfl
    | false =>
      have hcycle := hg.cycle h hm
      rcases hc : m.cycle with ⟨m₁, e | c⟩
      · rw [hc] at hcycle
        rw [after_of_error hc, after_of_error hcycle]
        rfl
      · rw [hc] at hcycle
        rw [after_succ hc, after_succ hcycle]
        exact ih (hg.later h hc)

theorem loop (h : P fuel m) : loop fuel (g m) = (g (loop fuel m).1, (loop fuel m).2) := by
  induction fuel generalizing m with
  | zero =>
    unfold Machine.loop
    rw [hg.halted]
    cases m.halted with
    | true => rfl
    | false => rfl
  | succ fuel ih =>
    unfold Machine.loop
    rw [hg.halted]
    cases hm : m.halted with
    | true => rfl
    | false =>
      rw [hg.cycle h hm]
      rcases hc : m.cycle with ⟨m₁, e | c⟩
      · rfl
      · exact ih (hg.later h hc)

/-- Whole runs, with their checks and what they note, if nothing that is noted depends on the change. -/
theorem run (hrecord : ∀ m e, (g m).record e = g (m.record e)) (hsize : (g m).tape.size = m.tape.size)
    (hsteps : ∀ m, (g m).steps = m.steps) (h : P fuel m.entered) :
    (g m).run fuel = (g (m.run fuel).1, (m.run fuel).2) := by
  cases hv : m.program.validate with
  | error f =>
    have hvalid : (g m).program.validate = .error f := by rw [hg.program, hv]
    rw [run_of_invalid hv, run_of_invalid hvalid]
  | ok u =>
    have hvalid : (g m).program.validate = .ok () := by rw [hg.program, hv]
    have hentered : (g m).entered = g m.entered := by
      rw [entered, hg.program, hsize, hrecord]
      rfl
    rw [run_of_valid hv, run_of_valid hvalid, hentered, hg.loop h]
    rcases Machine.loop fuel m.entered with ⟨m', e | u⟩
    · rfl
    · have hleave : (g m').record (.finished (g m').steps) = g (m'.record (.finished m'.steps)) := by
        rw [hsteps, hrecord]
      exact Prod.ext hleave rfl

end Commutes

section Guise
variable {g : Guise} {m' : Machine} {c : Instruction}

/-- In the first `n` cycles of a machine the limit makes no difference in a guise. -/
def Guise.Unnoticed (g : Guise) (m : Machine) (n : Nat) : Prop :=
  ∀ k x, k < n → m.after k = some x → x.halted = false →
    (x.inGuise g).limitReached = x.limitReached

/-- A guise that leaves the limit alone is not noticed at all. -/
theorem Guise.unnoticed_of_limit (hg : g.limit = id) (m : Machine) (n : Nat) : g.Unnoticed m n := by
  intro k x _ _ _
  simp [limitReached, inGuise, hg]

theorem Guise.Unnoticed.first (h : g.Unnoticed m (n + 1)) (hm : m.halted = false) :
    (m.inGuise g).cycle = g.dress m.cycle :=
  cycle_inGuise (h 0 m (Nat.succ_pos n) rfl hm)

theorem Guise.Unnoticed.later (h : g.Unnoticed m (n + 1)) (hc : m.cycle = (m₁, .ok c)) :
    g.Unnoticed m₁ n := by
  intro k x hk hx hm
  have hafter : m.after (k + 1) = some x := by rw [after_succ hc, hx]
  exact h (k + 1) x (Nat.succ_lt_succ hk) hafter hm

theorem commutes_inGuise (g : Guise) : Commutes (inGuise · g) fun n m => g.Unnoticed m n where
  program _ := rfl
  halted _ := rfl
  cycle h hm := h.first hm
  later h hc := h.later hc

theorem after_inGuise (h : g.Unnoticed m n) (hn : m.after n = some m') :
    (m.inGuise g).after n = some (m'.inGuise g) := by
  have hafter := (commutes_inGuise g).after h
  rwa [hn] at hafter

theorem run_inGuise (h : g.Unnoticed m.entered fuel) : (m.inGuise g).run fuel = g.dress (m.run fuel) :=
  (commutes_inGuise g).run (fun m e => m.record_inGuise g e) rfl (fun _ => rfl) h

/-- Loops of machines that differ in nothing but their journals go the same way. -/
theorem loop_bare (h : m.bare = m'.bare) (fuel : Nat) :
    (Machine.loop fuel m).1.bare = (Machine.loop fuel m').1.bare ∧
      (Machine.loop fuel m).2 = (Machine.loop fuel m').2 := by
  have hdress : ∀ x : Machine, Machine.loop fuel x = Guise.dress { earlier := x.journal } (Machine.loop fuel x.bare) := by
    intro x
    have hloop := (commutes_inGuise { earlier := x.journal }).loop (Guise.unnoticed_of_limit rfl x.bare fuel)
    rwa [bare_inGuise] at hloop
  rw [hdress m, hdress m', h]
  exact ⟨rfl, rfl⟩

end Guise

end Brainfuck.Machine
