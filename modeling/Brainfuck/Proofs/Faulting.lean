import Brainfuck.Proofs.Steps
import Brainfuck.Proofs.Stopping

/-! Sessions that fail. A stride fails exactly if one of its cycles does, before any breakpoint. Then the session is
finished and remembers what has been carried out, and no stride moves it any more. -/
namespace Brainfuck

namespace Machine
variable {m m₁ : Machine} {b : Breakpoints} {c : Instruction} {f f' : Fault} {e : Stop} {j : Nat}

/-- Behind none of its next `n` instructions a machine stands at a breakpoint. -/
def Unmarked (b : Breakpoints) (n : Nat) (m : Machine) : Prop :=
  ∀ i m', 0 < i → i ≤ n → m.after i = some m' → b.contains m'.instructionPointer = false

theorem unmarked_zero (b : Breakpoints) (m : Machine) : m.Unmarked b 0 := by
  intro i m' hpos hi
  omega

theorem unmarked_succ_iff (hc : m.cycle = (m₁, .ok c)) :
    m.Unmarked b (j + 1) ↔ b.contains m₁.instructionPointer = false ∧ m₁.Unmarked b j := by
  constructor
  · intro h
    constructor
    · exact h 1 m₁ Nat.one_pos (by omega) (after_one hc)
    · intro i m' hpos hi hm'
      exact h (i + 1) m' (by omega) (by omega) ((after_succ hc i).trans hm')
  · rintro ⟨hfirst, hrest⟩ i m' hpos hi hm'
    obtain ⟨i, rfl⟩ := Nat.exists_eq_add_of_lt hpos
    rw [Nat.zero_add] at hi hm'
    rw [after_succ hc] at hm'
    cases i with
    | zero =>
      obtain rfl := Option.some.inj hm'
      exact hfirst
    | succ i => exact hrest (i + 1) m' (by omega) (by omega) hm'

theorem failsAt_succ_iff (hc : m.cycle = (m₁, .ok c)) : m.FailsAt (j + 1) f ↔ m₁.FailsAt j f := by
  unfold FailsAt
  rw [after_succ hc]

theorem not_failsAt_zero_of_ok (hc : m.cycle = (m₁, .ok c)) : ¬ m.FailsAt 0 f := by
  rintro ⟨m₂, m₃, hm₂, -, he⟩
  obtain rfl := Option.some.inj hm₂
  cases hc.symm.trans he

theorem failsAt_iff_of_error (hm : m.halted = false) (he : m.cycle = (m₁, .error (.fault f'))) :
    m.FailsAt j f ↔ j = 0 ∧ f' = f := by
  constructor
  · rintro ⟨m₂, m₃, hm₂, -, he'⟩
    cases j with
    | zero =>
      obtain rfl := Option.some.inj hm₂
      cases he.symm.trans he'
      exact ⟨rfl, rfl⟩
    | succ j =>
      obtain ⟨m₄, c, hc, -⟩ := exists_cycle_of_after_succ hm₂
      cases he.symm.trans hc
  · rintro ⟨rfl, rfl⟩
    exact ⟨m, m₁, rfl, hm, he⟩

theorem not_failsAt_of_halted (hm : m.halted = true) : ¬ m.FailsAt j f := by
  rintro ⟨m₁, m₂, hm₁, hlive, -⟩
  cases j with
  | zero =>
    obtain rfl := Option.some.inj hm₁
    rw [hm] at hlive
    cases hlive
  | succ j =>
    obtain ⟨m₃, c, hc, -⟩ := exists_cycle_of_after_succ hm₁
    have hlive := not_halted_of_cycle_ok hc
    rw [hm] at hlive
    cases hlive

/-- There is one cycle only that fails, and one failure. -/
theorem FailsAt.unique {j' : Nat} (h : m.FailsAt j f) (h' : m.FailsAt j' f') : j = j' ∧ f = f' := by
  obtain ⟨m₁, m₂, hj, hm, he⟩ := h
  obtain ⟨m₃, m₄, hj', hm', he'⟩ := h'
  have hends : m.Ends j m₂ (.error (.fault f)) := .fails hj hm he
  have hends' : m.Ends j' m₄ (.error (.fault f')) := .fails hj' hm' he'
  obtain ⟨hj, -, hf⟩ := hends.unique hends'
  exact ⟨hj, Stop.fault.inj (Except.error.inj hf)⟩

/-- As far as a machine gets, it shows an instruction a time. -/
theorem trace_of_after (h : m.after j = some m₁) (reach : Int) :
    (m.trace reach j).length = j ∧ ∀ x ∈ m.trace reach j, x.command ≠ none := by
  induction j generalizing m with
  | zero => exact ⟨rfl, fun x hx => absurd hx List.not_mem_nil⟩
  | succ j ih =>
    obtain ⟨m₂, c, hc, hj⟩ := exists_cycle_of_after_succ h
    obtain ⟨hlength, hcommands⟩ := ih hj
    rw [trace_of_ok hc]
    refine ⟨congrArg (· + 1) hlength, ?_⟩
    intro x hx
    obtain rfl | hx := List.mem_cons.mp hx
    · exact Option.some_ne_none _
    · exact hcommands x hx

/-- Before a bound is reached, and before a breakpoint is, the cycle behind `j` instructions fails. -/
structure RunsInto (m : Machine) (b : Breakpoints) (bound : Option Int) (j : Nat) (f : Fault) : Prop where
  within : ∀ n, bound = some n → (j : Int) < n
  unmarked : m.Unmarked b j
  fails : m.FailsAt j f

end Machine

namespace Debugger.Session
variable {s t : Session} {m : Machine} {reach limit n : Int} {k j : Nat} {f : Fault} {failure : Option Fault}
  {xs ys shown : List Snapshot}

theorem kept_append (limit : Int) (xs ys : List Snapshot) :
    kept limit (kept limit xs ++ ys) = kept limit (xs ++ ys) := by
  have hlength : (kept limit xs).length = xs.length - (xs.length - limit.toNat) := by
    rw [kept, List.length_drop]
  by_cases hle : xs.length ≤ limit.toNat
  · have hall : kept limit xs = xs := by
      rw [kept, Nat.sub_eq_zero_of_le hle, List.drop_zero]
    rw [hall]
  · have hdrop : (xs ++ ys).drop (xs.length - limit.toNat) = kept limit xs ++ ys :=
      List.drop_append_of_le_length (Nat.sub_le _ _)
    have hfewer : (kept limit xs ++ ys).length - limit.toNat = ys.length := by
      rw [List.length_append, hlength]
      omega
    have hleft : kept limit (kept limit xs ++ ys) = (kept limit xs ++ ys).drop ys.length := by
      rw [← hfewer]
      rfl
    have hmore : (xs ++ ys).length - limit.toNat = xs.length - limit.toNat + ys.length := by
      rw [List.length_append]
      omega
    rw [hleft, kept.eq_1 limit (xs ++ ys), hmore, ← List.drop_drop, hdrop]

/-- Nothing is left to show of a finished session. -/
theorem stepForward_of_finished (hf : s.finished = true) (hn : 1 ≤ n) :
    s.stepForward n = ({ s with hit := none }, .ok []) := by
  obtain ⟨i, hi⟩ : ∃ i, n.toNat = i + 1 := Nat.exists_eq_succ_of_ne_zero (by omega)
  have hstep : step { s with hit := none } = ({ s with hit := none }, .ok none) := step_of_finished hf
  unfold stepForward
  rw [if_neg (by omega), hi, forward, hstep]
  rfl

theorem runUntilBreak_of_finished (hf : s.finished = true) {fuel : Nat} {bound : Option Int}
    (hasks : Call.Asks (.run fuel bound)) : s.runUntilBreak fuel bound = ({ s with hit := none }, .ok []) := by
  cases bound with
  | some n =>
    rw [runUntilBreak_some]
    exact stepForward_of_finished hf hasks
  | none =>
    have hfuel : (1 : Int) ≤ fuel := hasks
    obtain ⟨i, rfl⟩ : ∃ i, fuel = i + 1 := Nat.exists_eq_succ_of_ne_zero (by omega)
    have hrun : runFrom false (i + 1) [] { s with hit := none } = ({ s with hit := none }, .ok []) :=
      runFrom_of_finished (s := { s with hit := none }) hf rfl false i []
    exact hrun

section Fault
variable (hm : m.Endless) (h : Tracks m reach limit s k failure)
include hm h

/-- How a step of a session on its way goes: it shows the end of the program, or an instruction, or the machine
fails. -/
theorem Tracks.step_cases (hf : s.finished = false) :
    (s.machine.halted = true ∧ ∃ t x, s.step = (t, .ok (some x)) ∧ t.finished = true) ∨
      (∃ t x c, s.step = (t, .ok (some x)) ∧ s.machine.cycle = (t.machine, .ok c) ∧ t.finished = false ∧
        x.position = t.machine.instructionPointer ∧ t.breakpoints = s.breakpoints ∧
          Tracks m reach limit t (k + 1) failure) ∨
      ∃ t f, s.step = (t, .error (.fault f)) ∧ s.machine.halted = false ∧
        s.machine.cycle = (t.machine, .error (.fault f)) := by
  have hnextTracks := h.step hm hf
  cases h.status with
  | ended hend => rw [hf] at hend; cases hend
  | failed hend => rw [hf] at hend; cases hend
  | running _ hp hk hx =>
    have hvalid := (Machine.after_sameSettings hk).validate hm.valid
    have hnext := Stepper.next_of_live hp hvalid
    cases hhalted : s.machine.halted with
    | true =>
      rw [Stepper.advance_of_halted h.told hhalted] at hnext
      exact Or.inl ⟨rfl, _, _, step_of_shown hf hnext, rfl⟩
    | false =>
      rcases hc : s.machine.cycle with ⟨m', e | c⟩
      · obtain ⟨f, rfl, hfault⟩ := hm.cycle_error hk hhalted hc
        rw [Stepper.advance_of_error hhalted hc] at hnext
        exact Or.inr (Or.inr ⟨_, f, step_of_fault hf hnext hfault, rfl, rfl⟩)
      · rw [Stepper.advance_of_ok h.told hc] at hnext
        have hstep := step_of_shown hf hnext
        obtain ⟨x, -, -, ht⟩ | ⟨f, hfails, -⟩ := hnextTracks
        · rw [hstep] at ht
          exact Or.inr (Or.inl ⟨_, _, c, hstep, rfl, rfl, rfl, rfl, ht⟩)
        · rw [hstep] at hfails
          cases hfails

/-- Steps fail exactly if one of so many cycles does, before any breakpoint. -/
theorem Tracks.forward_error_iff (hf : s.finished = false) (n : Nat) (shown : List Snapshot) :
    (Session.forward n shown s).2 = .error (.fault f) ↔
      ∃ j < n, s.machine.Unmarked s.breakpoints j ∧ s.machine.FailsAt j f := by
  induction n generalizing s k shown with
  | zero =>
    refine iff_of_false (by simp [Session.forward]) ?_
    rintro ⟨j, hj, -⟩
    omega
  | succ n ih =>
    unfold Session.forward
    obtain ⟨hhalted, t, x, hstep, hft⟩ | ⟨t, x, c, hstep, hc, hft, hposition, hb, ht⟩ |
      ⟨t, f', hstep, hlive, he⟩ := h.step_cases hm hf
    · rw [hstep]
      dsimp only
      rw [if_pos hft]
      refine iff_of_false (by simp) ?_
      rintro ⟨j, -, -, hfails⟩
      exact Machine.not_failsAt_of_halted hhalted hfails
    · have hshift : (∃ j < n + 1, s.machine.Unmarked s.breakpoints j ∧ s.machine.FailsAt j f) ↔
          s.breakpoints.contains x.position = false ∧
            ∃ j < n, t.machine.Unmarked s.breakpoints j ∧ t.machine.FailsAt j f := by
        rw [hposition]
        constructor
        · rintro ⟨j, hj, hunmarked, hfails⟩
          cases j with
          | zero => exact absurd hfails (Machine.not_failsAt_zero_of_ok hc)
          | succ j =>
            obtain ⟨hfirst, hrest⟩ := (Machine.unmarked_succ_iff hc).mp hunmarked
            exact ⟨hfirst, j, by omega, hrest, (Machine.failsAt_succ_iff hc).mp hfails⟩
        · rintro ⟨hfirst, j, hj, hrest, hfails⟩
          exact ⟨j + 1, by omega, (Machine.unmarked_succ_iff hc).mpr ⟨hfirst, hrest⟩,
            (Machine.failsAt_succ_iff hc).mpr hfails⟩
      rw [hshift, hstep]
      dsimp only
      rw [if_neg (by simp [hft]), hb]
      cases hmarked : s.breakpoints.contains x.position with
      | true =>
        refine iff_of_false (by simp) ?_
        rintro ⟨hfree, -⟩
        cases hfree
      | false =>
        have hrest := ih ht hft (x :: shown)
        rw [hb] at hrest
        rw [if_neg (by simp), hrest]
        exact ⟨fun h => ⟨rfl, h⟩, fun h => h.2⟩
    · rw [hstep]
      dsimp only
      constructor
      · rintro ⟨⟩
        exact ⟨0, by omega, Machine.unmarked_zero _ _, (Machine.failsAt_iff_of_error hlive he).mpr ⟨rfl, rfl⟩⟩
      · rintro ⟨j, -, -, hfails⟩
        obtain ⟨-, rfl⟩ := (Machine.failsAt_iff_of_error hlive he).mp hfails
        rfl

theorem Tracks.stepForward_error_iff (hn : 1 ≤ n) :
    (s.stepForward n).2 = .error (.fault f) ↔
      s.finished = false ∧ ∃ j, s.machine.RunsInto s.breakpoints (some n) j f := by
  by_cases hf : s.finished = false
  · have hforward := (h.marked s.breakpoints none).forward_error_iff (f := f) hm hf n.toNat []
    unfold Session.stepForward
    rw [if_neg (by omega), hforward]
    constructor
    · rintro ⟨j, hj, hunmarked, hfails⟩
      refine ⟨hf, j, ?_, hunmarked, hfails⟩
      rintro _ ⟨⟩
      omega
    · rintro ⟨-, j, hwithin, hunmarked, hfails⟩
      have hj := hwithin n rfl
      exact ⟨j, by omega, hunmarked, hfails⟩
  · rw [stepForward_of_finished (by simpa using hf) hn]
    exact iff_of_false nofun fun h => hf h.1

/-- A run fails exactly if some cycle before its bound does, and before any breakpoint. -/
theorem Tracks.runUntilBreak_error_iff {fuel : Nat} {bound : Option Int} (hasks : Call.Asks (.run fuel bound))
    (hends : (s.runUntilBreak fuel bound).2 ≠ .error .unfinished) :
    (s.runUntilBreak fuel bound).2 = .error (.fault f) ↔
      s.finished = false ∧ ∃ j, s.machine.RunsInto s.breakpoints bound j f := by
  cases bound with
  | some n =>
    rw [runUntilBreak_some]
    exact h.stepForward_error_iff hm hasks
  | none =>
    -- a run that is not cut off is any stride that is long enough
    have hstride : ∀ i : Nat, fuel ≤ i → s.stepForward i = s.runUntilBreak fuel none := by
      intro i hi
      have hlimited : s.runUntilBreak fuel (some (i : Int)) = s.stepForward i := runUntilBreak_some fuel s i
      rw [← hlimited]
      exact runFrom_of_le hends hi
    constructor
    · intro he
      have hfuel : (1 : Int) ≤ fuel := hasks
      rw [← hstride fuel (Nat.le_refl _), h.stepForward_error_iff hm hfuel] at he
      obtain ⟨hf, j, -, hunmarked, hfails⟩ := he
      exact ⟨hf, j, nofun, hunmarked, hfails⟩
    · rintro ⟨hf, j, -, hunmarked, hfails⟩
      rw [← hstride (fuel + j + 1) (by omega), h.stepForward_error_iff hm (by omega)]
      refine ⟨hf, j, ?_, hunmarked, hfails⟩
      rintro _ ⟨⟩
      omega

end Fault

/-- A session `t` that has failed, behind `j` instructions more than `s`. It is finished and has hit no breakpoint.
Its state is that behind the last instruction, and it remembers the latest of the states before and behind the
instructions. -/
structure Failed (s t : Session) (j : Nat) (f : Fault) : Prop where
  fails : s.machine.FailsAt j f
  finished : t.finished = true
  hit : t.hit = none
  shown : (s.machine.trace s.reach j).length = j ∧ ∀ x ∈ s.machine.trace s.reach j, x.command ≠ none
  current : (s.current :: s.machine.trace s.reach j).getLast? = some t.current
  history : t.history.toList = kept s.historyLimit (s.history.toList ++ s.machine.trace s.reach j)

/-- A stride that fails has carried out all instructions up to the one that does. -/
theorem Tracks.failed (hm : m.Endless) (h : Tracks m s.reach limit s k failure) (hn : 1 ≤ n)
    (hfails : s.stepForward n = (t, .error (.fault f))) : ∃ j, s.Failed t j f := by
  have hproceeds := h.stepForward hm n
  have hhit := (s.stepForward_strides hn).raised (.fault f) (by rw [hfails])
  obtain ⟨hf, -⟩ := (h.stepForward_error_iff (f := f) hm hn).mp (by rw [hfails])
  rw [hfails] at hproceeds hhit
  cases h.status with
  | ended hend => rw [hf] at hend; cases hend
  | failed hend => rw [hf] at hend; cases hend
  | running _ _ hk _ =>
    cases hproceeds with
    | @fails _ i xs _ hj ht _ =>
      obtain ⟨d, rfl⟩ : ∃ d, i = k + d := by
        have hlength := congrArg List.length hj
        rw [ht.length, List.length_append, h.length] at hlength
        exact ⟨xs.length, by omega⟩
      have hstates : m.states s.reach (k + d) = m.states s.reach k ++ s.machine.trace s.reach d := by
        rw [Machine.states, Machine.trace_add hk]
        rfl
      cases ht.status with
      | @failed m₁ _ hft hi hlive he =>
        have hd : s.machine.after d = some m₁ := (Machine.after_add hk d).symm.trans hi
        refine ⟨d, ?_⟩
        constructor
        · exact ⟨m₁, t.machine, hd, hlive, he⟩
        · exact hft
        · exact hhit
        · exact Machine.trace_of_after hd s.reach
        · have hlast := ht.getLast_eq
          rw [hstates, List.getLast?_append, h.getLast_eq] at hlast
          rw [List.getLast?_cons, ← hlast]
          cases (s.machine.trace s.reach d).getLast? <;> rfl
        · rw [ht.history, hstates, h.history, h.keeps, kept_append]

/-- Only the breakpoints of two sessions differ, and what has been hit. -/
def Still (s t : Session) : Prop :=
  t = { s with breakpoints := t.breakpoints, hit := t.hit }

section Still
variable {u : Session}

theorem still_marked (s : Session) (breakpoints : Breakpoints) (hit : Option Int) :
    s.Still { s with breakpoints, hit } := rfl

theorem Still.refl (s : Session) : s.Still s := rfl

theorem Still.trans (h : s.Still t) (h' : t.Still u) : s.Still u := by
  unfold Still at h h' ⊢
  rw [h', h]

/-- What a session shows does not depend on them. -/
theorem Still.shows (h : s.Still t) :
    t.finished = s.finished ∧ t.current = s.current ∧ t.history = s.history := by
  unfold Still at h
  rw [h]
  exact ⟨rfl, rfl, rfl⟩

theorem stepForward_still (hf : s.finished = true) (n : Int) : s.Still (s.stepForward n).1 := by
  by_cases hn : 1 ≤ n
  · rw [stepForward_of_finished hf hn]
    exact s.still_marked s.breakpoints none
  · unfold stepForward
    rw [if_pos (by omega)]
    exact .refl s

/-- No call moves a session that is finished. -/
theorem call_still (hf : s.finished = true) (c : Call) : s.Still (s.call c).1 := by
  cases c with
  | step n => exact stepForward_still hf n
  | run fuel limit =>
    rw [Session.call, runUntilBreak_session]
    exact stepForward_still hf _
  | add p => exact s.still_marked _ s.hit
  | clear => exact s.still_marked _ s.hit
  | remove p =>
    simp only [Session.call, removeBreakpoint]
    split
    · exact s.still_marked _ s.hit
    · exact .refl s

end Still

end Debugger.Session

end Brainfuck
