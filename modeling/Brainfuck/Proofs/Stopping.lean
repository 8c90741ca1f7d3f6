import Brainfuck.Proofs.Strides

/-! Stopping. A stride passes no breakpoint. It ends behind all its steps, at the end of the session, or at the first
instruction behind which there is a breakpoint, and then the session says which one it has hit. -/
namespace Brainfuck

/-- The state behind an instruction, with a breakpoint at what comes next. -/
def Snapshot.Marked (b : Breakpoints) (x : Snapshot) : Prop :=
  x.command ≠ none ∧ b.contains x.position = true

namespace Debugger.Session

/-- Where a stride of at most `n` steps ends, in the session `t`, that shows `xs` and heeds the breakpoints `b`. -/
structure Stops (b : Breakpoints) (n : Int) (t : Session) (xs : List Snapshot) : Prop where
  passed : ∀ x ∈ xs.dropLast, ¬ x.Marked b
  short : (xs.length : Int) < n → t.finished = true ∨ ∃ x, xs.getLast? = some x ∧ x.Marked b
  hit : ∀ p, t.hit = some p ↔ ∃ x, xs.getLast? = some x ∧ x.Marked b ∧ x.position = p

/-- A session that says it has hit a breakpoint is at it, and can go on. -/
def Consistent (s : Session) : Prop :=
  ∀ p, s.hit = some p → s.current.position = p ∧ s.finished = false

variable {s t : Session} {b : Breakpoints} {n : Nat} {x : Snapshot} {xs shown : List Snapshot}

theorem consistent_of_unhit (hs : s.hit = none) : s.Consistent := by
  intro p hp
  rw [hs] at hp
  cases hp

theorem step_none (h : s.step = (t, .ok none)) : t.finished = true := by
  unfold step at h
  split at h
  · next hf =>
    cases h
    exact hf
  · dsimp only at h
    split at h
    · cases h
    · cases h
      rfl
    · cases h
    · cases h

section Stops

theorem Stops.nil (ht : t.hit = none) (hn : 0 < n → t.finished = true) : Stops b n t [] := by
  constructor
  · simp
  · intro hlt
    have hpos : 0 < n := by simpa using hlt
    exact Or.inl (hn hpos)
  · simp [ht]

theorem Stops.last (ht : t.hit = none) (hf : t.finished = true) (hx : x.command = none) :
    Stops b n t [x] := by
  have hunmarked : ¬ x.Marked b := fun hm => hm.1 hx
  constructor
  · simp
  · intro _
    exact Or.inl hf
  · simp [ht, hunmarked]

theorem Stops.marked (ht : t.hit = some x.position) (hx : x.Marked b) : Stops b n t [x] := by
  constructor
  · simp
  · intro _
    exact Or.inr ⟨x, rfl, hx⟩
  · simp [ht, hx]

theorem Stops.cons (h : Stops b n t xs) (hx : ¬ x.Marked b) : Stops b (n + 1 : Nat) t (x :: xs) := by
  have hshort : ((x :: xs).length : Int) < (n + 1 : Nat) → (xs.length : Int) < n := by
    rw [List.length_cons]
    omega
  cases xs with
  | nil =>
    constructor
    · simp
    · intro hlt
      obtain hf | ⟨y, hy, -⟩ := h.short (hshort hlt)
      · exact Or.inl hf
      · cases hy
    · have hhit := h.hit
      simpa [hx] using hhit
  | cons y ys =>
    constructor
    · intro z hz
      rw [List.dropLast_cons_cons] at hz
      obtain rfl | hz := List.mem_cons.mp hz
      · exact hx
      · exact h.passed z hz
    · intro hlt
      rw [List.getLast?_cons_cons]
      exact h.short (hshort hlt)
    · intro p
      rw [List.getLast?_cons_cons]
      exact h.hit p

end Stops

/-- What a stride of at most `n` steps leads to, behind the states `shown`, from a session that has hit nothing. -/
structure Strides (b : Breakpoints) (n : Nat) (shown : List Snapshot)
    (r : Session × Except Stop (List Snapshot)) : Prop where
  returned : ∀ ys, r.2 = .ok ys → ∃ xs, ys = shown.reverse ++ xs ∧ Stops b n r.1 xs
  raised : ∀ e, r.2 = .error e → r.1.hit = none
  consistent : r.1.Consistent

theorem Strides.of_stops (h : Stops b n t xs) (hc : t.Consistent) :
    Strides b n shown (t, .ok (shown.reverse ++ xs)) := by
  constructor
  · intro ys hys
    obtain rfl := Except.ok.inj hys
    exact ⟨xs, rfl, h⟩
  · intro e he
    cases he
  · exact hc

theorem Strides.of_nil (h : Stops b n t []) (hc : t.Consistent) : Strides b n shown (t, .ok shown.reverse) := by
  have hstrides : Strides b n shown (t, .ok (shown.reverse ++ [])) := .of_stops h hc
  rwa [List.append_nil] at hstrides

theorem Strides.of_error {e : Stop} (ht : t.hit = none) : Strides b n shown (t, .error e) := by
  constructor
  · intro ys hys
    cases hys
  · intro e' _
    exact ht
  · exact consistent_of_unhit ht

theorem Strides.cons {r : Session × Except Stop (List Snapshot)} (h : Strides b n (x :: shown) r)
    (hx : ¬ x.Marked b) : Strides b (n + 1) shown r := by
  constructor
  · intro ys hys
    obtain ⟨xs, rfl, hxs⟩ := h.returned ys hys
    refine ⟨x :: xs, ?_, hxs.cons hx⟩
    rw [List.reverse_cons, List.append_assoc, List.singleton_append]
  · exact h.raised
  · exact h.consistent

theorem forward_strides (hs : s.hit = none) (n : Nat) (shown : List Snapshot) :
    Strides s.breakpoints n shown (forward n shown s) := by
  induction n generalizing s shown with
  | zero =>
    have hstops : Stops s.breakpoints (0 : Nat) s [] := .nil hs (by omega)
    exact .of_nil hstops (consistent_of_unhit hs)
  | succ n ih =>
    have hhit := s.step_hit
    have hbreakpoints := s.step_moves.breakpoints
    unfold forward
    rcases hstep : s.step with ⟨t, e | _ | x⟩
    · rw [hstep] at hhit
      exact .of_error (hhit.trans hs)
    · rw [hstep] at hhit
      have ht : t.hit = none := hhit.trans hs
      have hstops : Stops s.breakpoints (n + 1 : Nat) t [] := .nil ht fun _ => step_none hstep
      exact .of_nil hstops (consistent_of_unhit ht)
    · rw [hstep] at hhit hbreakpoints
      have ht : t.hit = none := hhit.trans hs
      have hb : t.breakpoints = s.breakpoints := hbreakpoints
      obtain ⟨-, -, hcurrent, hfinished⟩ := step_some hstep
      have hreverse : (x :: shown).reverse = shown.reverse ++ [x] := List.reverse_cons
      dsimp only
      rw [hreverse, hb]
      -- the end comes before any breakpoint, so that none is hit at the last state
      by_cases hf : t.finished = true
      · have hx : x.command = none := by
          rw [hf] at hfinished
          simpa using hfinished.symm
        rw [if_pos hf]
        exact .of_stops (.last ht hf hx) (consistent_of_unhit ht)
      · have hx : x.command ≠ none := by
          intro hx
          rw [hx] at hfinished
          exact hf hfinished
        rw [if_neg hf]
        by_cases hp : s.breakpoints.contains x.position = true
        · rw [if_pos hp]
          refine .of_stops (.marked rfl ⟨hx, hp⟩) ?_
          intro p hp
          obtain rfl := Option.some.inj hp
          exact ⟨congrArg Snapshot.position hcurrent, by simpa using hf⟩
        · have hunmarked : ¬ x.Marked s.breakpoints := fun hm => hp hm.2
          rw [if_neg hp]
          have hrest := ih ht (x :: shown)
          rw [hb] at hrest
          exact hrest.cons hunmarked

theorem stepForward_strides (s : Session) {n : Int} (hn : 1 ≤ n) :
    Strides s.breakpoints n.toNat [] (s.stepForward n) := by
  have hforward := forward_strides (s := { s with hit := none }) rfl n.toNat []
  unfold stepForward
  rw [if_neg (by omega)]
  exact hforward

theorem Consistent.stepForward (hs : s.Consistent) (n : Int) : (s.stepForward n).1.Consistent := by
  by_cases hn : 1 ≤ n
  · exact (s.stepForward_strides hn).consistent
  · unfold Session.stepForward
    rw [if_pos (by omega)]
    exact hs

theorem Consistent.call (hs : s.Consistent) (c : Call) : (s.call c).1.Consistent := by
  cases c with
  | step n => exact hs.stepForward n
  | run fuel limit =>
    rw [Session.call, runUntilBreak_session]
    exact hs.stepForward _
  | add p => exact hs
  | clear => exact hs
  | remove p =>
    simp only [Session.call, removeBreakpoint]
    split
    · exact hs
    · exact hs

section InUse
variable {setup : Setup}

/-- The sessions that come of a setup by calls and restarts, also where whoever uses one takes note of a hit in
between, or puts other breakpoints into place. -/
inductive InUse (setup : Setup) : Session → Prop where
  | start {s : Session} (h : Session.start setup = .ok s) : InUse setup s
  | call {s : Session} (h : InUse setup s) (c : Call) : InUse setup (s.call c).1
  | restart {s : Session} (h : InUse setup s) : InUse setup s.restart
  | noted {s : Session} (h : InUse setup s) : InUse setup { s with hit := none }
  | replaced {s : Session} (h : InUse setup s) (breakpoints : Breakpoints) :
      InUse setup { s with breakpoints }

theorem InUse.consistent (h : InUse setup s) : s.Consistent := by
  induction h with
  | start h =>
    obtain ⟨-, m, reach, limit, -, -, -, rfl⟩ := start_ok h
    exact consistent_of_unhit rfl
  | call _ c ih => exact ih.call c
  | restart _ _ => exact consistent_of_unhit rfl
  | noted _ _ => exact consistent_of_unhit rfl
  | replaced _ _ ih => exact ih

/-- Wherever a session in use stands, it stands at some element of the trace of its machine. -/
theorem InUse.tracks (hi : ∀ v ∈ setup.input, ∃ n, v = .integer n) (h : InUse setup s) :
    s.initial.Endless ∧ ∃ reach limit k failure, Tracks s.initial reach limit s k failure := by
  induction h with
  | start h =>
    obtain ⟨hv, m, reach, limit, hm, -, -, rfl⟩ := start_ok h
    exact ⟨Setup.machine_endless hi hv hm, reach, limit, 0, none, begin_tracks m reach limit {}⟩
  | @call s _ c ih =>
    obtain ⟨hendless, reach, limit, k, failure, ht⟩ := ih
    have hcall := ht.call hendless c
    rw [(s.call_sameConfiguration c).initial]
    refine ⟨hendless, ?_⟩
    generalize s.call c = r at hcall
    cases hcall with
    | returns _ ht' => exact ⟨reach, limit, _, _, ht'⟩
    | fails _ ht' _ => exact ⟨reach, limit, _, _, ht'⟩
    | cutOff _ ht' _ => exact ⟨reach, limit, _, _, ht'⟩
  | @restart s _ ih =>
    exact ⟨ih.1, s.reach, s.historyLimit, 0, none, begin_tracks s.initial _ _ s.breakpoints⟩
  | @noted s _ ih =>
    obtain ⟨hendless, reach, limit, k, failure, ht⟩ := ih
    exact ⟨hendless, reach, limit, k, failure, ht.marked s.breakpoints none⟩
  | @replaced s _ breakpoints ih =>
    obtain ⟨hendless, reach, limit, k, failure, ht⟩ := ih
    exact ⟨hendless, reach, limit, k, failure, ht.marked breakpoints s.hit⟩

/-- Every session in use keeps the machine of its setup. -/
theorem InUse.configured (h : InUse setup s) :
    (Program.ofSource setup.code).validate = .ok () ∧ setup.machine (.ofSource setup.code) = .ok s.initial := by
  induction h with
  | start h =>
    obtain ⟨hv, m, reach, limit, hm, -, -, rfl⟩ := start_ok h
    exact ⟨hv, hm⟩
  | @call s _ c ih =>
    rw [(s.call_sameConfiguration c).initial]
    exact ih
  | restart _ ih => exact ih
  | noted _ ih => exact ih
  | replaced _ _ ih => exact ih

end InUse

section Onward
variable {m : Machine} {reach limit : Int} {k : Nat} {failure : Option Fault}

/-- The calls that ask for one step at least. -/
def Call.Asks : Call → Prop
  | step count => 1 ≤ count
  | run fuel limit => 1 ≤ limit.getD fuel
  | _ => False

/-- A call has led on from a session: it has failed, or instructions have been carried out, or the end is
reached. -/
def Onward (s : Session) (r : Session × Except Stop (List Snapshot)) : Prop :=
  (∃ f, r.2 = .error (.fault f)) ∨ s.machine.steps < r.1.machine.steps ∨
    (r.1.finished = true ∧ r.1.current.command = none)

theorem Tracks.steps (h : Tracks m reach limit s k failure) (hf : s.finished = false) :
    failure = none ∧ s.machine.steps = m.steps + k := by
  cases h.status with
  | running _ _ hk _ => exact ⟨rfl, Machine.after_steps hk⟩
  | ended hend => rw [hf] at hend; cases hend
  | failed hend => rw [hf] at hend; cases hend

theorem Tracks.onward_stepForward (hm : m.Endless) (h : Tracks m reach limit s k failure)
    (hf : s.finished = false) {n : Int} (hn : 1 ≤ n) : Onward s (s.stepForward n) := by
  obtain ⟨rfl, hsteps⟩ := h.steps hf
  have hproceeds := h.stepForward hm n
  have hstrides := s.stepForward_strides hn
  generalize s.stepForward n = r at hproceeds hstrides
  cases hproceeds with
  | fails => exact Or.inl ⟨_, rfl⟩
  | cutOff _ _ hb => cases hb
  | @returns t j xs hj ht =>
    have hlength : j = k + xs.length := by
      have hstates := congrArg List.length hj
      rw [ht.length, List.length_append, h.length] at hstates
      omega
    cases htf : t.finished with
    | true =>
      -- without a failure the end is where the last state has been shown
      cases ht.status with
      | running hend => rw [htf] at hend; cases hend
      | ended _ _ _ _ hx => exact Or.inr (Or.inr ⟨htf, hx⟩)
    | false =>
      obtain ⟨-, hsteps'⟩ := ht.steps htf
      have hshown : xs ≠ [] := by
        rintro rfl
        obtain ⟨ys, hys, hstops⟩ := hstrides.returned [] rfl
        have hnil : ys = [] := by simpa using hys.symm
        subst hnil
        obtain hend | ⟨x, hx, -⟩ := hstops.short (by simp; omega)
        · rw [htf] at hend
          cases hend
        · cases hx
      have hpos : 0 < xs.length := List.length_pos_iff.mpr hshown
      have hlt : s.machine.steps < t.machine.steps := by omega
      exact Or.inr (Or.inl hlt)

theorem Tracks.onward (hm : m.Endless) (h : Tracks m reach limit s k failure) (hf : s.finished = false)
    {c : Call} (hc : c.Asks) : Onward s (s.call c) := by
  cases c with
  | step n => exact h.onward_stepForward hm hf hc
  | run fuel limit =>
    simp only [Session.call]
    cases limit with
    | none =>
      have hstride : Onward s (s.stepForward fuel) := h.onward_stepForward hm hf hc
      obtain hrun | ⟨t, xs, hrun, hstep⟩ := runUntilBreak_none fuel s
      · rw [hrun]
        exact hstride
      · -- what is cut off has gone on as far as the stride
        rw [hstep] at hstride
        rw [hrun]
        obtain ⟨f, hf⟩ | hahead := hstride
        · cases hf
        · exact Or.inr hahead
    | some k =>
      rw [runUntilBreak_some]
      exact h.onward_stepForward hm hf hc
  | add p => cases hc
  | remove p => cases hc
  | clear => cases hc

end Onward

/-- How a session heeds its breakpoints. A stride ends where they say, or fails with nothing hit; a session that is
not finished is led on by any further call, wherever it has stopped; and what it says it has hit is where it is. -/
structure HeedsBreakpoints (s : Session) : Prop where
  returned : ∀ (n : Int) t xs, 1 ≤ n → s.stepForward n = (t, .ok xs) → Stops s.breakpoints n t xs
  raised : ∀ (n : Int) t e, 1 ≤ n → s.stepForward n = (t, .error e) → t.hit = none
  onward : s.finished = false → ∀ c : Call, c.Asks → Onward s (s.call c)
  hit : ∀ p, s.hit = some p → s.current.position = p ∧ s.finished = false

/-- Every session in use stops at its breakpoints, exactly where it should. -/
theorem heeds_breakpoints {setup : Setup} (hi : ∀ v ∈ setup.input, ∃ n, v = .integer n)
    (h : InUse setup s) : HeedsBreakpoints s := by
  obtain ⟨hendless, reach, limit, k, failure, ht⟩ := h.tracks hi
  constructor
  · intro n t xs hn hstep
    obtain ⟨ys, hys, hstops⟩ := (s.stepForward_strides hn).returned xs (by rw [hstep])
    have hcount : (n.toNat : Int) = n := by omega
    have hxs : xs = ys := by simpa using hys
    rw [hstep, hcount] at hstops
    rw [hxs]
    exact hstops
  · intro n t e hn hstep
    have hraised := (s.stepForward_strides hn).raised e
    rw [hstep] at hraised
    exact hraised rfl
  · intro hf c hc
    exact ht.onward hendless hf hc
  · exact h.consistent

/-- A stride up to a breakpoint, behind which a run goes on to the limit. -/
theorem heeds_breakpoints_on_the_way :
    let s := (begin 1 2 twoOfThreeMachine {}).after [.add 1, .step 5]
    (∀ v ∈ twoOfThree.input, ∃ n, v = .integer n) ∧ InUse twoOfThree s ∧
      s.hit = some 1 ∧ s.current.position = 1 ∧ s.finished = false ∧ Onward s (s.call (.run 9 none)) ∧
        ∃ t xs, s.stepForward 1 = (t, .ok xs) ∧ Stops ⟨[1]⟩ 1 t xs := by
  intro s
  have hi : ∀ v ∈ twoOfThree.input, ∃ n, v = .integer n := by simp [twoOfThree]
  have hs : InUse twoOfThree s := .call (.call (.start rfl) (.add 1)) (.step 5)
  obtain ⟨hreturned, -, honward, hhit⟩ := heeds_breakpoints hi hs
  have hstopped : s.hit = some 1 := by decide +kernel
  obtain ⟨hposition, hf⟩ := hhit 1 hstopped
  have hasks : Call.Asks (.run 9 none) := by simp [Call.Asks]
  exact ⟨hi, hs, hstopped, hposition, hf, honward hf _ hasks, _, _, rfl, hreturned 1 _ _ (by decide) rfl⟩

end Debugger.Session

end Brainfuck
