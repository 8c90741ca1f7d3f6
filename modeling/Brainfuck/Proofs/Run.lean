import Brainfuck.Machine.Run
import Brainfuck.Proofs.Journal

/-! Runs as rows of cycles. A run ends exactly where the cycles do: at the end of the program or at the
first cycle that fails. -/
namespace Brainfuck.Machine

/-- The machine after some cycles, if it gets that far. -/
def after : Nat → Machine → Option Machine
  | 0, m => some m
  | n + 1, m =>
    match m.cycle with
    | (m, .ok _) => after n m
    | (_, .error _) => none

/-- The cycles of a machine end after `n` of them: it has halted, or the next one fails. -/
inductive Ends (m : Machine) (n : Nat) (m' : Machine) : Except Stop Unit → Prop where
  | halts (hn : m.after n = some m') (hm : m'.halted = true) : Ends m n m' (.ok ())
  | fails {m₁ : Machine} {e : Stop} (hn : m.after n = some m₁) (hm : m₁.halted = false)
      (he : m₁.cycle = (m', .error e)) : Ends m n m' (.error e)

variable {m m₁ m₂ m' : Machine} {n k : Nat} {c : Instruction} {r : Except Stop Unit}

theorem after_succ (h : m.cycle = (m₁, .ok c)) (n : Nat) : m.after (n + 1) = m₁.after n := by
  simp only [after, h]

theorem after_one (h : m.cycle = (m₁, .ok c)) : m.after 1 = some m₁ :=
  after_succ h 0

theorem exists_cycle_of_after_succ (h : m.after (n + 1) = some m') :
    ∃ m₁ c, m.cycle = (m₁, .ok c) ∧ m₁.after n = some m' := by
  rcases hc : m.cycle with ⟨m₁, _ | c⟩
  · simp [after, hc] at h
  · exact ⟨m₁, c, rfl, by rw [← after_succ hc, h]⟩

theorem after_add (h : m.after n = some m₁) (k : Nat) : m.after (n + k) = m₁.after k := by
  induction n generalizing m with
  | zero =>
    obtain rfl := Option.some.inj h
    rw [Nat.zero_add]
  | succ n ih =>
    obtain ⟨m₂, c, hc, hn⟩ := exists_cycle_of_after_succ h
    rw [Nat.add_right_comm, after_succ hc, ih hn]

/-- A machine that gets far gets less far, too. -/
theorem exists_after_of_le (h : m.after n = some m') (hk : k ≤ n) : ∃ m₁, m.after k = some m₁ := by
  induction k generalizing m n with
  | zero => exact ⟨m, rfl⟩
  | succ k ih =>
    cases n with
    | zero => omega
    | succ n =>
      obtain ⟨m₂, c, hc, hn⟩ := exists_cycle_of_after_succ h
      obtain ⟨m₁, h₁⟩ := ih hn (by omega)
      exact ⟨m₁, by rw [after_succ hc, h₁]⟩

theorem after_steps (h : m.after n = some m') : m'.steps = m.steps + n := by
  induction n generalizing m with
  | zero =>
    obtain rfl := Option.some.inj h
    exact (Int.add_zero _).symm
  | succ n ih =>
    obtain ⟨m₁, c, hc, hn⟩ := exists_cycle_of_after_succ h
    have hcycle := cycle_ok_steps hc
    rw [ih hn, hcycle]
    omega

theorem after_bare (h : m.bare = m'.bare) (hn : m.after n = some m₁) :
    ∃ m₂, m'.after n = some m₂ ∧ m₁.bare = m₂.bare := by
  induction n generalizing m m' with
  | zero =>
    obtain rfl := Option.some.inj hn
    exact ⟨m', rfl, h⟩
  | succ n ih =>
    obtain ⟨m₃, c, hc, hn⟩ := exists_cycle_of_after_succ hn
    obtain ⟨hmachine, hresult⟩ := cycle_bare h
    rw [hc] at hmachine hresult
    obtain ⟨m₂, h₂, hbare⟩ := ih hmachine hn
    exact ⟨m₂, by rw [after_succ (Prod.ext rfl hresult.symm), h₂], hbare⟩

theorem after_sameSettings (h : m.after n = some m') : m.SameSettings m' := by
  induction n generalizing m with
  | zero =>
    obtain rfl := Option.some.inj h
    exact .refl m
  | succ n ih =>
    obtain ⟨m₁, c, hc, hn⟩ := exists_cycle_of_after_succ h
    exact (SameSettings.of_cycle hc).trans (ih hn)

theorem Ends.cycle (h : m₁.Ends n m' r) (hc : m.cycle = (m₁, .ok c)) : m.Ends (n + 1) m' r := by
  cases h with
  | halts hn hm => exact .halts (by rw [after_succ hc, hn]) hm
  | fails hn hm he => exact .fails (by rw [after_succ hc, hn]) hm he

theorem Ends.exists_cycle (h : m.Ends (n + 1) m' r) : ∃ m₁ c, m.cycle = (m₁, .ok c) ∧ m₁.Ends n m' r := by
  cases h with
  | halts hn hm =>
    obtain ⟨m₁, c, hc, h₁⟩ := exists_cycle_of_after_succ hn
    exact ⟨m₁, c, hc, .halts h₁ hm⟩
  | fails hn hm he =>
    obtain ⟨m₁, c, hc, h₁⟩ := exists_cycle_of_after_succ hn
    exact ⟨m₁, c, hc, .fails h₁ hm he⟩

/-- Behind its end a machine gets no further. -/
theorem Ends.after_eq_none (h : m.Ends n m' r) : m.after (n + 1) = none := by
  cases h with
  | halts hn hm =>
    cases hc : m.after (n + 1) with
    | none => rfl
    | some m₂ =>
      rw [after_add hn] at hc
      obtain ⟨m₃, c, hcycle, -⟩ := exists_cycle_of_after_succ hc
      rw [not_halted_of_cycle_ok hcycle] at hm
      cases hm
  | fails hn hm he =>
    rw [after_add hn]
    simp only [after, he]

theorem Ends.le_of_after (h : m.Ends n m' r) (hk : m.after k = some m₁) : k ≤ n := by
  by_contra hlt
  obtain ⟨m₂, h₂⟩ := exists_after_of_le hk (show n + 1 ≤ k by omega)
  rw [h.after_eq_none] at h₂
  cases h₂

theorem Ends.sameSettings (h : m.Ends n m' r) : m.SameSettings m' := by
  cases h with
  | halts hn _ => exact after_sameSettings hn
  | fails hn _ he => exact (after_sameSettings hn).trans (.of_cycle he)

theorem Ends.steps (h : m.Ends n m' r) : m'.steps = m.steps + n := by
  cases h with
  | halts hn _ => exact after_steps hn
  | fails hn _ he =>
    obtain ⟨-, hsteps⟩ := cycle_error_counters he
    rw [hsteps, after_steps hn]

/-- Cycles end, or they go on forever. -/
theorem exists_ends_or_after (m : Machine) :
    (∃ n m' r, m.Ends n m' r) ∨ ∀ n, ∃ m', m.after n = some m' := by
  by_cases hend : ∃ n m' r, m.Ends n m' r
  · exact Or.inl hend
  · refine Or.inr ?_
    intro n
    induction n with
    | zero => exact ⟨m, rfl⟩
    | succ n ih =>
      obtain ⟨m₁, hn⟩ := ih
      cases hm : m₁.halted with
      | true => exact absurd ⟨n, m₁, _, .halts hn hm⟩ hend
      | false =>
        rcases hc : m₁.cycle with ⟨m₂, e | c⟩
        · exact absurd ⟨n, m₂, _, .fails hn hm hc⟩ hend
        · exact ⟨m₂, by rw [after_add hn, after_one hc]⟩

/-- Cycles end in one way only. -/
theorem Ends.unique {r' : Except Stop Unit} (h : m.Ends n m₁ r) (h' : m.Ends k m₂ r') :
    n = k ∧ m₁ = m₂ ∧ r = r' := by
  have hle : ∀ {n k m₁ m₂ r r'}, m.Ends n m₁ r → m.Ends k m₂ r' → n ≤ k := by
    intro n k m₁ m₂ r r' h h'
    cases h with
    | halts hn hm => exact h'.le_of_after hn
    | fails hn hm he => exact h'.le_of_after hn
  obtain rfl : n = k := Nat.le_antisymm (hle h h') (hle h' h)
  refine ⟨rfl, ?_⟩
  cases h with
  | halts hn hm =>
    cases h' with
    | halts hn' hm' => exact ⟨Option.some.inj (hn.symm.trans hn'), rfl⟩
    | fails hn' hm' he' =>
      obtain rfl := Option.some.inj (hn.symm.trans hn')
      rw [hm] at hm'
      cases hm'
  | fails hn hm he =>
    cases h' with
    | halts hn' hm' =>
      obtain rfl := Option.some.inj (hn.symm.trans hn')
      rw [hm] at hm'
      cases hm'
    | fails hn' hm' he' =>
      obtain rfl := Option.some.inj (hn.symm.trans hn')
      obtain ⟨rfl, he⟩ := Prod.mk.inj (he.symm.trans he')
      exact ⟨rfl, by rw [Except.error.inj he]⟩

theorem Ends.bare (h : m.bare = m'.bare) (hn : m.Ends n m₁ r) :
    ∃ m₂, m'.Ends n m₂ r ∧ m₁.bare = m₂.bare := by
  cases hn with
  | halts hn hm =>
    obtain ⟨m₂, h₂, hbare⟩ := after_bare h hn
    exact ⟨m₂, .halts h₂ (by rw [← halted_bare hbare, hm]), hbare⟩
  | fails hn hm he =>
    obtain ⟨m₃, h₃, hbare⟩ := after_bare h hn
    obtain ⟨hmachine, hresult⟩ := cycle_bare hbare
    rw [he] at hmachine hresult
    exact ⟨_, .fails h₃ (by rw [← halted_bare hbare, hm]) (Prod.ext rfl hresult.symm), hmachine⟩

/-- Cycles that have been taken do not change where they end. -/
theorem ends_add_iff (h : m.after n = some m₁) : m.Ends (n + k) m' r ↔ m₁.Ends k m' r := by
  constructor
  · intro hk
    cases hk with
    | halts hn hm => exact .halts (by rw [← after_add h, hn]) hm
    | fails hn hm he => exact .fails (by rw [← after_add h, hn]) hm he
  · intro hk
    cases hk with
    | halts hn hm => exact .halts (by rw [after_add h, hn]) hm
    | fails hn hm he => exact .fails (by rw [after_add h, hn]) hm he

theorem loop_of_ends (h : m.Ends n m' r) {fuel : Nat} (hfuel : n < fuel) : loop fuel m = (m', r) := by
  induction n generalizing m fuel with
  | zero =>
    obtain ⟨k, rfl⟩ := Nat.exists_eq_succ_of_ne_zero (Nat.ne_of_gt hfuel)
    cases h with
    | halts hn hm =>
      obtain rfl := Option.some.inj hn
      simp [loop, hm]
    | fails hn hm he =>
      obtain rfl := Option.some.inj hn
      simp [loop, hm, he]
  | succ n ih =>
    obtain ⟨k, rfl⟩ := Nat.exists_eq_succ_of_ne_zero (Nat.ne_zero_of_lt hfuel)
    obtain ⟨m₁, c, hc, h₁⟩ := h.exists_cycle
    rw [loop, not_halted_of_cycle_ok hc, hc]
    exact ih h₁ (Nat.lt_of_succ_lt_succ hfuel)

/-- A loop that is not cut off has come to the end of the cycles. -/
theorem ends_of_loop {fuel : Nat} (h : loop fuel m = (m', r)) (hr : r ≠ .error .unfinished) :
    ∃ n, m.Ends n m' r := by
  induction fuel generalizing m with
  | zero =>
    unfold loop at h
    split at h
    · next hm =>
      obtain ⟨rfl, rfl⟩ := Prod.mk.inj h
      exact ⟨0, .halts rfl hm⟩
    · exact absurd (Prod.mk.inj h).2.symm hr
  | succ fuel ih =>
    unfold loop at h
    split at h
    · next hm =>
      obtain ⟨rfl, rfl⟩ := Prod.mk.inj h
      exact ⟨0, .halts rfl hm⟩
    · next hm =>
      have hm : m.halted = false := by simpa using hm
      split at h
      · next he =>
        obtain ⟨rfl, rfl⟩ := Prod.mk.inj h
        exact ⟨0, .fails rfl hm he⟩
      · next hc =>
        obtain ⟨n, hn⟩ := ih h
        exact ⟨n + 1, hn.cycle hc⟩

/-- More cycles change nothing where a loop is not cut off. -/
theorem loop_of_le {fuel fuel' : Nat} (h : (loop fuel m).2 ≠ .error .unfinished) (hle : fuel ≤ fuel') :
    loop fuel' m = loop fuel m := by
  induction fuel generalizing m fuel' with
  | zero =>
    unfold loop at h
    split at h
    · next hm =>
      cases fuel' with
      | zero => rfl
      | succ k => simp [loop, hm]
    · exact absurd rfl h
  | succ fuel ih =>
    obtain ⟨k, rfl⟩ := Nat.exists_eq_succ_of_ne_zero (Nat.ne_zero_of_lt hle)
    unfold loop at h ⊢
    cases hm : m.halted with
    | true => rfl
    | false =>
      rw [hm] at h
      rcases hc : m.cycle with ⟨m₁, e | c⟩
      · rfl
      · rw [hc] at h
        exact ih h (Nat.le_of_succ_le_succ hle)

/-- Cycles that have been taken do not change what is left of a loop. -/
theorem loop_add (h : m.after n = some m₁) (k : Nat) : loop (n + k) m = loop k m₁ := by
  induction n generalizing m with
  | zero =>
    obtain rfl := Option.some.inj h
    rw [Nat.zero_add]
  | succ n ih =>
    obtain ⟨m₂, c, hc, hn⟩ := exists_cycle_of_after_succ h
    rw [Nat.add_right_comm, loop, not_halted_of_cycle_ok hc, hc]
    exact ih hn

/-- What every cycle keeps, a loop keeps. -/
theorem loop_induction {Q : Machine → Prop} (hcycle : ∀ m, Q m → Q m.cycle.1) (h : Q m) (fuel : Nat) :
    Q (loop fuel m).1 := by
  induction fuel generalizing m with
  | zero =>
    unfold loop
    split <;> exact h
  | succ fuel ih =>
    have hcycle := hcycle m h
    unfold loop
    split
    · exact h
    · split
      · next hc => rwa [hc] at hcycle
      · next hc =>
        rw [hc] at hcycle
        exact ih hcycle

def entered (m : Machine) : Machine :=
  m.record (.started m.program.size m.tape.size)

theorem run_of_valid (h : m.program.validate = .ok ()) (fuel : Nat) :
    m.run fuel = leave (loop fuel m.entered) := by
  simp only [run, enter, h, Except.map]
  rfl

theorem run_of_invalid {f : Fault} (h : m.program.validate = .error f) (fuel : Nat) :
    m.run fuel = (m, .error (.fault f)) := by
  simp only [run, enter, h, Except.map]

/-- What every cycle keeps, and what is kept where the start or the end of a run is noted, a run keeps. -/
theorem run_induction {Q : Machine → Prop} (hcycle : ∀ m, Q m → Q m.cycle.1)
    (hrecord : ∀ m e, e.level = .debug → Q m → Q (m.record e)) (h : Q m) (fuel : Nat) : Q (m.run fuel).1 := by
  cases hv : m.program.validate with
  | error f =>
    rw [run_of_invalid hv]
    exact h
  | ok u =>
    have hloop := loop_induction hcycle (hrecord m (.started m.program.size m.tape.size) rfl h) fuel
    rw [run_of_valid hv, entered]
    rcases hl : loop fuel (m.record (.started m.program.size m.tape.size)) with ⟨m', e | u⟩
    · rw [hl] at hloop
      exact hloop
    · rw [hl] at hloop
      exact hrecord m' _ rfl hloop

theorem run_sameSettings (fuel : Nat) (m : Machine) : m.SameSettings (m.run fuel).1 :=
  run_induction (fun x h => h.trans x.cycle_sameSettings) (fun x e _ h => h.trans (x.record_sameSettings e)) (.refl m)
    fuel

theorem Quiet.run (h : m.Quiet) (fuel : Nat) : (m.run fuel).1.Quiet :=
  run_induction (fun _ => Quiet.cycle) (fun _ _ he h => h.record he) h fuel

/-- Leaving a run is noted in the journal, and nothing else changes. -/
theorem leave_bare (m : Machine) (r : Except Stop Unit) :
    (leave (m, r)).1.bare = m.bare ∧ (leave (m, r)).2 = r := by
  cases r with
  | error e => exact ⟨rfl, rfl⟩
  | ok u => exact ⟨rfl, rfl⟩

theorem run_of_ends_of_lt (hv : m.program.validate = .ok ()) (h : m.Ends n m' r) {fuel : Nat}
    (hfuel : n < fuel) : ∃ m₁, m.run fuel = (m₁, r) ∧ m₁.bare = m'.bare := by
  obtain ⟨m₂, h₂, hbare⟩ := h.bare (m.record_bare _).symm
  obtain ⟨hleave, hresult⟩ := leave_bare m₂ r
  refine ⟨(leave (m₂, r)).1, ?_, hleave.trans hbare.symm⟩
  rw [run_of_valid hv, entered, loop_of_ends h₂ hfuel]
  exact Prod.ext rfl hresult

theorem run_of_le {fuel fuel' : Nat} (h : (m.run fuel).2 ≠ .error .unfinished) (hle : fuel ≤ fuel') :
    m.run fuel' = m.run fuel := by
  cases hv : m.program.validate with
  | error f => rw [run_of_invalid hv, run_of_invalid hv]
  | ok u =>
    rw [run_of_valid hv] at h
    rw [run_of_valid hv, run_of_valid hv]
    have hloop : (loop fuel m.entered).2 ≠ .error .unfinished := by
      obtain ⟨-, hresult⟩ := leave_bare (loop fuel m.entered).1 (loop fuel m.entered).2
      rwa [← hresult]
    rw [loop_of_le hloop hle]

/-- A run has a result exactly where the cycles end. -/
theorem run_of_ends (hv : m.program.validate = .ok ()) (h : m.Ends n m' r) :
    ∃ m₁, m.run (n + 1) = (m₁, r) ∧ m₁.bare = m'.bare :=
  run_of_ends_of_lt hv h (Nat.lt_succ_self n)

theorem ends_of_run {fuel : Nat} (hv : m.program.validate = .ok ()) (h : m.run fuel = (m₁, r))
    (hr : r ≠ .error .unfinished) : ∃ n m', m.Ends n m' r ∧ m'.bare = m₁.bare := by
  rw [run_of_valid hv] at h
  rcases hloop : loop fuel m.entered with ⟨m₂, r₂⟩
  obtain ⟨hleave, hresult⟩ := leave_bare m₂ r₂
  rw [hloop] at h
  rw [h] at hleave hresult
  subst hresult
  obtain ⟨n, hn⟩ := ends_of_loop hloop hr
  obtain ⟨m', h', hbare⟩ := hn.bare (m.record_bare _)
  exact ⟨n, m', h', hbare.symm.trans hleave.symm⟩

/-- Where the cycles end there is a run that ends in the same way. -/
theorem exists_run_iff (hv : m.program.validate = .ok ()) (hr : r ≠ .error .unfinished) (t : Machine) :
    (∃ fuel m', m.run fuel = (m', r) ∧ m'.bare = t) ↔ ∃ n m', m.Ends n m' r ∧ m'.bare = t := by
  constructor
  · rintro ⟨fuel, m₁, hrun, rfl⟩
    exact ends_of_run hv hrun hr
  · rintro ⟨n, m', hn, rfl⟩
    obtain ⟨m₁, hrun, hbare⟩ := run_of_ends hv hn
    exact ⟨n + 1, m₁, hrun, hbare⟩

/-- A machine that comes to another one ends as that one does. -/
theorem exists_ends_iff (h : m.after n = some m') (hbare : m₁.bare = m'.bare) (t : Machine) :
    (∃ k m₂, m.Ends k m₂ r ∧ m₂.bare = t) ↔ ∃ k m₂, m₁.Ends k m₂ r ∧ m₂.bare = t := by
  constructor
  · rintro ⟨k, m₂, hk, rfl⟩
    have hle : n ≤ k := by
      cases hk with
      | halts hn hm => exact (Ends.halts hn hm).le_of_after h
      | fails hn hm he => exact (Ends.fails hn hm he).le_of_after h
    obtain ⟨j, rfl⟩ := Nat.exists_eq_add_of_le hle
    obtain ⟨m₃, h₃, hbare₃⟩ := ((ends_add_iff h).mp hk).bare hbare.symm
    exact ⟨j, m₃, h₃, hbare₃.symm⟩
  · rintro ⟨k, m₂, hk, rfl⟩
    obtain ⟨m₃, h₃, hbare₃⟩ := hk.bare hbare
    exact ⟨n + k, m₃, (ends_add_iff h).mpr h₃, hbare₃.symm⟩

end Brainfuck.Machine
