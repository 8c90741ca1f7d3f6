import Brainfuck.Proofs.Failures
import Brainfuck.Proofs.Session

/-! Runs of sessions to their end. A session without breakpoints comes to the end of the cycles and shows
how they end. -/
namespace Brainfuck.Debugger.Session

structure Roams (reach : Int) (s : Session) : Prop where
  finished : s.finished = false
  live : s.stepper.phase ≠ .spent
  told : s.stepper.reach = .ok reach
  valid : s.machine.program.validate = .ok ()
  unmarked : s.breakpoints = {}

/-- A session in the end: its machine, and the last state if there was no failure. -/
structure Rests (reach : Int) (s : Session) (m : Machine) (r : Except Stop Unit) : Prop where
  machine : s.machine = m
  current : r = .ok () → s.current = m.snapshot none reach

variable {reach : Int} {s s' : Session} {m m' : Machine} {n fuel : Nat} {r : Except Stop Unit} {e : Stop}
  {shown : List Snapshot} {y : Except Stop (List Snapshot)}

theorem begin_roams (reach limit : Int) (hv : m.program.validate = .ok ()) :
    Roams reach (begin reach limit m {}) :=
  ⟨rfl, nofun, rfl, hv, rfl⟩

theorem stepForward_one (s : Session) : s.stepForward 1 = forward 1 [] { s with hit := none } := rfl

theorem step_of_error {t : Stepper} (hf : s.finished = false)
    (hn : s.stepper.next s.machine = ⟨m', t, .error e⟩) (he : e ≠ .fault .stepperExhausted) :
    s.step.2 = .error e ∧ s.step.1.machine = m' := by
  unfold step
  rw [if_neg (by simp [hf])]
  simp only [hn]
  split
  · next h => cases h
  · next h => exact absurd (Except.error.inj h) he
  · next h => exact ⟨congrArg Except.error (Except.error.inj h).symm, rfl⟩
  · next h => exact ⟨congrArg Except.error (Except.error.inj h).symm, rfl⟩

section Single
variable (h : Roams reach s)
include h

/-- At the end of the program a single step shows the last state. -/
theorem Roams.single_of_halted (hm : s.machine.halted = true) :
    ∃ s' x, s.stepForward 1 = (s', .ok [x]) ∧ s'.finished = true ∧ s'.hit = none ∧
      Rests reach s' s.machine (.ok ()) := by
  have hnext : s.stepper.next s.machine = _ := Stepper.next_of_live h.live h.valid
  rw [Stepper.advance_of_halted h.told hm] at hnext
  have hstep := step_of_shown (s := { s with hit := none }) h.finished hnext
  rw [stepForward_one, forward, hstep]
  exact ⟨_, _, rfl, rfl, rfl, rfl, fun _ => rfl⟩

/-- Inside the program it carries out an instruction. -/
theorem Roams.single_of_ok {c : Instruction} (hc : s.machine.cycle = (m', .ok c)) :
    ∃ s' x, s.stepForward 1 = (s', .ok [x]) ∧ s'.hit = none ∧ s'.machine = m' ∧ Roams reach s' := by
  have hnext : s.stepper.next s.machine = _ := Stepper.next_of_live h.live h.valid
  rw [Stepper.advance_of_ok h.told hc] at hnext
  have hstep := step_of_shown (s := { s with hit := none }) h.finished hnext
  have hvalid := (Machine.SameSettings.of_cycle hc).validate h.valid
  rw [stepForward_one, forward, hstep]
  dsimp only
  rw [if_neg (by simp [Machine.snapshot]), h.unmarked]
  exact ⟨_, _, rfl, rfl, rfl, rfl, nofun, h.told, hvalid, rfl⟩

/-- An instruction that fails makes it fail. -/
theorem Roams.single_of_error (hm : s.machine.halted = false) (he : s.machine.cycle = (m', .error e)) :
    ∃ s', s.stepForward 1 = (s', .error e) ∧ s'.machine = m' := by
  have hnext : s.stepper.next s.machine = _ := Stepper.next_of_live h.live h.valid
  rw [Stepper.advance_of_error hm he] at hnext
  have hkind : e ≠ .fault .stepperExhausted := by
    rintro rfl
    exact s.machine.cycle_ne_exhausted (congrArg Prod.snd he)
  obtain ⟨hresult, hmachine⟩ := step_of_error (s := { s with hit := none }) h.finished hnext hkind
  refine ⟨_, ?_, hmachine⟩
  rw [stepForward_one, forward]
  generalize step { s with hit := none } = q at hresult
  obtain ⟨s', y⟩ := q
  subst hresult
  rfl

end Single

/-- A finished session has nothing left to show. -/
theorem runFrom_of_finished (hf : s.finished = true) (hh : s.hit = none) (bounded : Bool) (fuel : Nat)
    (shown : List Snapshot) : runFrom bounded (fuel + 1) shown s = (s, .ok shown.reverse) := by
  have hsame : { s with hit := none } = s := by rw [← hh]
  have hsingle : s.stepForward 1 = (s, .ok []) := by
    rw [stepForward_one, forward, hsame, step_of_finished hf]
    rfl
  rw [runFrom, hsingle]

/-- A run comes to the end of the cycles. -/
theorem Roams.runFrom_of_ends (h : Roams reach s) (hn : s.machine.Ends n m r) (hfuel : n + 1 < fuel)
    (shown : List Snapshot) :
    ∃ s' y, runFrom false fuel shown s = (s', y) ∧ y.map (fun _ => ()) = r ∧ Rests reach s' m r := by
  induction n generalizing s shown fuel with
  | zero =>
    obtain ⟨k, rfl⟩ := Nat.exists_eq_add_of_lt hfuel
    cases hn with
    | halts hk hm =>
      obtain rfl := Option.some.inj hk
      obtain ⟨s', x, hsingle, hf, hh, hrests⟩ := h.single_of_halted hm
      refine ⟨s', .ok ([x].reverse ++ shown).reverse, ?_, rfl, hrests⟩
      rw [runFrom, hsingle]
      dsimp only
      rw [hh, Option.isSome_none, if_neg (by simp), Nat.add_right_comm,
        runFrom_of_finished hf hh]
    | fails hk hm he =>
      obtain rfl := Option.some.inj hk
      obtain ⟨s', hsingle, rfl⟩ := h.single_of_error hm he
      refine ⟨s', .error _, ?_, rfl, rfl, nofun⟩
      rw [runFrom, hsingle]
  | succ n ih =>
    obtain ⟨k, rfl⟩ := Nat.exists_eq_succ_of_ne_zero (Nat.ne_zero_of_lt hfuel)
    obtain ⟨m₁, c, hc, hn⟩ := hn.exists_cycle
    obtain ⟨s', x, hsingle, hh, rfl, hroams⟩ := h.single_of_ok hc
    rw [runFrom, hsingle]
    dsimp only
    rw [hh]
    exact ih hroams hn (Nat.lt_of_succ_lt_succ hfuel) _

/-- A run that is not cut off has come there. -/
theorem Roams.ends_of_runFrom (h : Roams reach s) (hrun : runFrom false fuel shown s = (s', y))
    (hy : y ≠ .error .unfinished) :
    ∃ n, s.machine.Ends n s'.machine (y.map fun _ => ()) ∧
      Rests reach s' s'.machine (y.map fun _ => ()) := by
  induction fuel generalizing s shown with
  | zero =>
    cases hrun
    exact absurd rfl hy
  | succ fuel ih =>
    cases hm : s.machine.halted with
    | true =>
      obtain ⟨s₁, x, hsingle, hf, hh, hrests⟩ := h.single_of_halted hm
      rw [runFrom, hsingle] at hrun
      dsimp only at hrun
      rw [hh] at hrun
      cases fuel with
      | zero =>
        cases hrun
        exact absurd rfl hy
      | succ fuel =>
        rw [Option.isSome_none, if_neg (by simp), runFrom_of_finished hf hh] at hrun
        cases hrun
        rw [hrests.machine]
        exact ⟨0, .halts rfl hm, hrests⟩
    | false =>
      rcases hc : s.machine.cycle with ⟨m₁, e | c⟩
      · obtain ⟨s₁, hsingle, rfl⟩ := h.single_of_error hm hc
        rw [runFrom, hsingle] at hrun
        cases hrun
        exact ⟨0, .fails rfl hm hc, rfl, nofun⟩
      · obtain ⟨s₁, x, hsingle, hh, rfl, hroams⟩ := h.single_of_ok hc
        rw [runFrom, hsingle] at hrun
        dsimp only at hrun
        rw [hh] at hrun
        obtain ⟨n, hn, hrests⟩ := ih hroams hrun
        exact ⟨n + 1, hn.cycle hc, hrests⟩

end Brainfuck.Debugger.Session
