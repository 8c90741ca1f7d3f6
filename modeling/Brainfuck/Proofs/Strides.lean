import Brainfuck.Proofs.Completion
import Brainfuck.Proofs.Fidelity

/-! Strides. A run takes single steps and looks at the session behind each of them, while a stride takes its steps
at once and looks at the states. They stop at the same places, so that a run with a limit is a stride of so many
steps. -/
namespace Brainfuck.Debugger.Session
variable {s t : Session} {n fuel : Nat} {shown : List Snapshot} {x : Snapshot}

theorem step_hit (s : Session) : s.step.1.hit = s.hit := by
  unfold step
  split
  · rfl
  · dsimp only
    split
    all_goals rfl

/-- A run goes on behind a step unless a breakpoint has been hit. -/
theorem runFrom_of_shown {bounded : Bool} (h : s.stepForward 1 = (t, .ok [x])) :
    runFrom bounded (n + 1) shown s =
      if t.hit.isSome then (t, .ok (x :: shown).reverse) else runFrom bounded n (x :: shown) t := by
  rw [runFrom, h]
  rfl

theorem runFrom_eq_forward (hs : s.hit = none) (n : Nat) (shown : List Snapshot) :
    runFrom true n shown s = forward n shown s := by
  induction n generalizing s shown with
  | zero => rfl
  | succ n ih =>
    have hsame : { s with hit := none } = s := by rw [← hs]
    have hsingle : s.stepForward 1 = forward 1 [] s := by rw [stepForward_one, hsame]
    rcases hstep : s.step with ⟨t, e | _ | x⟩
    · rw [runFrom, hsingle]
      simp only [forward, hstep]
    · rw [runFrom, hsingle]
      simp only [forward, hstep]
      rfl
    · have ht : t.hit = none := by rw [← hs, ← s.step_hit, hstep]
      by_cases hf : t.finished = true
      · -- the run looks once more, unless its limit is reached, and finds nothing left to show
        have hone : s.stepForward 1 = (t, .ok [x]) := by
          rw [hsingle]
          simp only [forward, hstep, if_pos hf, List.reverse_singleton]
        rw [runFrom_of_shown hone, if_neg (by simp [ht])]
        simp only [forward, hstep, if_pos hf]
        cases n with
        | zero => rfl
        | succ n => exact runFrom_of_finished hf ht true n (x :: shown)
      · by_cases hb : t.breakpoints.contains x.position = true
        · have hone : s.stepForward 1 = ({ t with hit := some x.position }, .ok [x]) := by
            rw [hsingle]
            simp only [forward, hstep, if_neg hf, if_pos hb, List.reverse_singleton]
          rw [runFrom_of_shown hone, if_pos (by simp)]
          simp only [forward, hstep, if_neg hf, if_pos hb]
        · have hone : s.stepForward 1 = (t, .ok [x]) := by
            rw [hsingle]
            simp only [forward, hstep, if_neg hf, if_neg hb, List.reverse_singleton]
          rw [runFrom_of_shown hone, if_neg (by simp [ht]), ih ht]
          simp only [forward, hstep, if_neg hf, if_neg hb]

/-- A run without a limit that may take `n` steps is the run with the limit `n`, or it is cut off where that one
ends. -/
theorem runFrom_unlimited (n : Nat) (shown : List Snapshot) (s : Session) :
    runFrom false n shown s = runFrom true n shown s ∨
      ∃ t xs, runFrom false n shown s = (t, .error .unfinished) ∧ runFrom true n shown s = (t, .ok xs) := by
  induction n generalizing s shown with
  | zero => exact Or.inr ⟨s, shown.reverse, rfl, rfl⟩
  | succ n ih =>
    unfold runFrom
    rcases s.stepForward 1 with ⟨t, e | _ | ⟨x, xs⟩⟩
    · exact Or.inl rfl
    · exact Or.inl rfl
    · dsimp only
      by_cases ht : t.hit.isSome = true
      · rw [if_pos ht, if_pos ht]
        exact Or.inl rfl
      · rw [if_neg ht, if_neg ht]
        exact ih _ t

/-- A run that is not cut off ends alike under every limit that lets it. -/
theorem runFrom_of_le (h : (runFrom false fuel shown s).2 ≠ .error .unfinished) (hn : fuel ≤ n) :
    runFrom true n shown s = runFrom false fuel shown s := by
  induction fuel generalizing s shown n with
  | zero => exact absurd rfl h
  | succ fuel ih =>
    cases n with
    | zero => omega
    | succ n =>
      unfold runFrom at h ⊢
      generalize s.stepForward 1 = r at h ⊢
      obtain ⟨t, e | _ | ⟨x, xs⟩⟩ := r
      · rfl
      · rfl
      · dsimp only at h ⊢
        by_cases ht : t.hit.isSome = true
        · rw [if_pos ht, if_pos ht]
        · rw [if_neg ht] at h
          rw [if_neg ht, if_neg ht]
          exact ih h (by omega)

theorem runUntilBreak_some (fuel : Nat) (s : Session) (k : Int) :
    s.runUntilBreak fuel (some k) = s.stepForward k := by
  unfold runUntilBreak stepForward
  by_cases hk : k ≤ 0
  · have hzero : k.toNat = 0 := by omega
    rw [if_pos hk]
    dsimp only
    rw [hzero]
    rfl
  · obtain ⟨n, hn⟩ : ∃ n, k.toNat = n + 1 := Nat.exists_eq_succ_of_ne_zero (by omega)
    -- the first single step forgets what was hit before
    have hforget : runFrom true (n + 1) [] s = runFrom true (n + 1) [] { s with hit := none } := rfl
    rw [if_neg hk]
    dsimp only
    rw [hn, hforget, runFrom_eq_forward rfl]

/-- A run without a limit is a stride, or it is cut off where that one ends. -/
theorem runUntilBreak_none (fuel : Nat) (s : Session) :
    s.runUntilBreak fuel none = s.stepForward fuel ∨
      ∃ t xs, s.runUntilBreak fuel none = (t, .error .unfinished) ∧ s.stepForward fuel = (t, .ok xs) := by
  have hlimited : runFrom true fuel [] s = s.stepForward fuel := runUntilBreak_some fuel s fuel
  rw [← hlimited]
  exact runFrom_unlimited fuel [] s

/-- Behind a run the session is where a stride leads, also if the run is cut off. -/
theorem runUntilBreak_session (fuel : Nat) (s : Session) (limit : Option Int) :
    (s.runUntilBreak fuel limit).1 = (s.stepForward (limit.getD fuel)).1 := by
  cases limit with
  | none =>
    obtain hrun | ⟨t, xs, hrun, hstep⟩ := runUntilBreak_none fuel s
    · exact congrArg Prod.fst hrun
    · rw [hrun, Option.getD_none, hstep]
  | some k => rw [runUntilBreak_some, Option.getD_some]

/-- Runs and strides agree, in whatever state a session is. A run with a limit is the stride of so many steps; and a
run without one, if it comes to an end, is every stride that is long enough. -/
theorem run_eq_stride (s : Session) :
    (∀ (fuel : Nat) (k : Int), s.runUntilBreak fuel (some k) = s.stepForward k) ∧
      ∀ fuel, (s.runUntilBreak fuel none).2 ≠ .error .unfinished →
        ∃ k₀ : Int, ∀ k, k₀ ≤ k → s.stepForward k = s.runUntilBreak fuel none := by
  constructor
  · intro fuel k
    exact runUntilBreak_some fuel s k
  · intro fuel hends
    refine ⟨fuel, ?_⟩
    intro k hk
    have hle : fuel ≤ k.toNat := by omega
    have hlimited : runFrom true k.toNat [] s = runFrom false fuel [] s := runFrom_of_le hends hle
    rw [← runUntilBreak_some fuel]
    exact hlimited

/-- A session that may take two steps of three, and that still shows a breakpoint which is gone. -/
def outdated : Session :=
  { begin 1 2 twoOfThreeMachine {} with hit := some 7 }

/-- Its run fails at the limit, and so does every stride that is long enough. -/
theorem run_eq_stride_outdated :
    (outdated.runUntilBreak 9 none).2 = .error (.fault .stepLimit) ∧
      (outdated.runUntilBreak 9 none).2 ≠ .error .unfinished ∧
        ∃ k₀ : Int, ∀ k, k₀ ≤ k → outdated.stepForward k = outdated.runUntilBreak 9 none := by
  have hfails : (outdated.runUntilBreak 9 none).2 = .error (.fault .stepLimit) := rfl
  have hends : (outdated.runUntilBreak 9 none).2 ≠ .error .unfinished := by simp [hfails]
  obtain ⟨-, hstrides⟩ := run_eq_stride outdated
  exact ⟨hfails, hends, hstrides 9 hends⟩

end Brainfuck.Debugger.Session
