import Brainfuck.Proofs.DryRun
import Brainfuck.Proofs.Ignoring

/-! Steps of sessions. A session counts the instructions of its machine: it never gets behind the last one that the
machine would complete without a limit, and in front of that one only a limit makes an end. -/
namespace Brainfuck

namespace Machine
variable {m x : Machine} {n k total : ℕ} {N : ℕ∞}

/-- What a machine completes in spite of its limit it completes without it. -/
theorem after_unlimited (h : m.after n = some x) : (m.withLimit none).after n = some (x.withLimit none) := by
  rw [withLimit_eq_inGuise, withLimit_eq_inGuise]
  refine after_inGuise ?_ h
  intro k y hk hy hhalted
  -- there has been a further cycle, so that the limit has not been reached
  obtain ⟨z, hz⟩ := exists_after_of_le h (Nat.succ_le_of_lt hk)
  have hnext : y.after 1 = some z := by rw [← after_add hy, hz]
  obtain ⟨w, c, hc, -⟩ := exists_cycle_of_after_succ hnext
  cases hl : y.limitReached with
  | false => simp [limitReached, inGuise]
  | true =>
    rw [cycle_of_limitReached hl] at hc
    cases hc

/-- What a machine completes without its limit it completes as far as the limit lets it. -/
theorem after_limited (h0 : m.steps = 0) (h : (m.withLimit none).after n = some x)
    (hl : ∀ l, m.maxSteps = some l → (n : Int) ≤ l) : m.after n = some (x.withLimit m.maxSteps) := by
  have hsame : m = (m.withLimit none).inGuise { limit := fun _ => m.maxSteps } := by
    rw [← withLimit_eq_inGuise]
    rfl
  rw [withLimit_eq_inGuise, hsame]
  refine after_inGuise (unnoticed_of_lt h0 rfl ?_) h
  intro k y hk _ _ l hl'
  have hle := hl l hl'
  omega

/-- A machine stops in front of an instruction that it would complete only if it is not let. -/
theorem le_of_after_none (h0 : m.steps = 0) (hN : (m.withLimit none).Completes N) (hle : total ≤ N)
    (hl : ∀ l, m.maxSteps = some l → (total : Int) ≤ l) (hnone : m.after (k + 1) = none) : total ≤ k := by
  by_contra hlt
  have hsucc : ((k + 1 : ℕ) : ℕ∞) ≤ N := le_trans (by exact_mod_cast Nat.succ_le_of_lt (not_le.mp hlt)) hle
  obtain ⟨y, hy⟩ := (hN (k + 1)).mp hsucc
  have hafter := after_limited h0 hy (by
    intro l hl'
    have hle := hl l hl'
    omega)
  rw [hnone] at hafter
  cases hafter

/-- The states up to an instruction count the instructions. -/
theorem states_steps (h : m.after k = some x) (reach : Int) :
    (m.states reach k).map Snapshot.step = (List.range (k + 1)).map fun i : ℕ => m.steps + i := by
  induction k generalizing x with
  | zero => simp [states, trace, snapshot]
  | succ k ih =>
    obtain ⟨y, hy⟩ := exists_after_of_le h (Nat.le_succ k)
    have hnext : y.after 1 = some x := by rw [← after_add hy, h]
    obtain ⟨z, c, hc, hz⟩ := exists_cycle_of_after_succ hnext
    obtain rfl := Option.some.inj hz
    have hsteps := after_steps h
    rw [states_succ_of_ok hy hc, List.map_append, ih hy, List.range_succ (n := k + 1), List.map_append]
    simp [snapshot, hsteps]

section Counts
variable {reach : Int} {y : Snapshot} (h0 : m.steps = 0) (h : m.after k = some x)
include h0 h

theorem step_le_of_mem_states (hy : y ∈ m.states reach k) : y.step ≤ k := by
  have hmem : y.step ∈ (m.states reach k).map Snapshot.step := List.mem_map_of_mem hy
  rw [states_steps h, h0] at hmem
  obtain ⟨i, hi, hstep⟩ := List.mem_map.mp hmem
  have hlt := List.mem_range.mp hi
  omega

theorem step_of_getLast_states (hy : (m.states reach k).getLast? = some y) : y.step = k := by
  have hlast := congrArg List.getLast? (states_steps h reach)
  rw [List.getLast?_map, hy, List.range_succ, List.map_append, List.map_singleton, List.getLast?_concat] at hlast
  have hstep := Option.some.inj hlast
  omega

end Counts

end Machine

namespace Debugger

/-- Without its limit a setup makes the same machine without a limit. -/
theorem Setup.machine_unlimited {setup : Setup} {program : Program} {m : Machine}
    (h : setup.machine program = .ok m) :
    (setup.withLimit none).machine program = .ok (m.withLimit none) := by
  obtain ⟨tape, limit, ht, -, hstart⟩ := machine_ok h
  obtain ⟨rfl, -⟩ := Machine.start_ok hstart
  simp only [machine, blank_withLimit, ht, bind, Except.bind]
  rfl

namespace Session
variable {s t : Session} {N : ℕ∞} {total n : ℕ} {m : Machine} {reach limit : Int} {k : ℕ} {failure : Option Fault}

/-- A session behind `j` instructions: its state is the one behind them, and no state in front of it counts more. If
it is finished there is no further one. -/
structure Stood (m : Machine) (reach : Int) (s : Session) (k j : ℕ) : Prop where
  reached : ∃ x, m.after j = some x
  current : s.current.step = j
  states : ∀ x ∈ m.states reach k, x.step ≤ j
  finished : s.finished = true → m.after (j + 1) = none

theorem Tracks.getLast_eq (h : Tracks m reach limit s k failure) : (m.states reach k).getLast? = some s.current := by
  rw [List.getLast?_eq_getElem?, h.length, Nat.add_sub_cancel]
  exact h.current

/-- Wherever a session stands, it stands behind some instructions. -/
theorem Tracks.exists_stood (h0 : m.steps = 0) (h : Tracks m reach limit s k failure) :
    ∃ j, Stood m reach s k j := by
  have hlast := h.getLast_eq
  cases h.status with
  | running hf _ hk _ =>
    refine ⟨k, ⟨_, hk⟩, Machine.step_of_getLast_states h0 hk hlast,
      fun x hx => Machine.step_le_of_mem_states h0 hk hx, ?_⟩
    intro hend
    rw [hf] at hend
    cases hend
  | @ended n _ hk hn hm _ =>
    have hends : m.Ends n s.machine (.ok ()) := .halts hn hm
    have hsteps := Machine.after_steps hn
    have hstep : (s.machine.snapshot none reach).step = n := by
      show s.machine.steps = n
      omega
    rw [hk, Machine.states_succ_of_halted hn hm] at hlast
    have hcurrent : s.machine.snapshot none reach = s.current := by
      rw [List.getLast?_concat] at hlast
      exact Option.some.inj hlast
    refine ⟨n, ⟨_, hn⟩, ?_, ?_, fun _ => hends.after_eq_none⟩
    · rw [← hcurrent, hstep]
    · rw [hk, Machine.states_succ_of_halted hn hm]
      intro x hx
      obtain hx | hx := List.mem_append.mp hx
      · exact Machine.step_le_of_mem_states h0 hn hx
      · rw [List.mem_singleton.mp hx, hstep]
  | failed _ hk hm he =>
    have hends : m.Ends k _ _ := .fails hk hm he
    exact ⟨k, ⟨_, hk⟩, Machine.step_of_getLast_states h0 hk hlast,
      fun x hx => Machine.step_le_of_mem_states h0 hk hx, fun _ => hends.after_eq_none⟩

structure Counted (N : ℕ∞) (s : Session) : Prop where
  endless : s.initial.Endless
  start : s.initial.steps = 0
  completes : (s.initial.withLimit none).Completes N
  tracks : ∃ reach limit k failure, Tracks s.initial reach limit s k failure

theorem InUse.counted {setup : Setup} (hi : ∀ v ∈ setup.input, ∃ n, v = .integer n) (h : InUse setup s)
    (hm : (setup.withLimit none).machine (.ofSource setup.code) = .ok m) (hN : m.Completes N) : Counted N s := by
  obtain ⟨-, hinitial⟩ := h.configured
  obtain ⟨hendless, htracks⟩ := h.tracks hi
  obtain rfl := Except.ok.inj (hm.symm.trans (Setup.machine_unlimited hinitial))
  exact ⟨hendless, Setup.machine_steps hinitial, hN, htracks⟩

section Counted
variable (h : s.Counted N)
include h

/-- No state counts more steps than there are instructions to complete. -/
theorem Counted.step_le (hle : N ≤ total) : s.current.step ≤ total ∧ ∀ x ∈ s.history, x.step ≤ total := by
  obtain ⟨reach, limit, k, failure, ht⟩ := h.tracks
  obtain ⟨j, ⟨x, hx⟩, hcurrent, hstates, -⟩ := ht.exists_stood h.start
  have hj : j ≤ total := by
    have hcomplete := (h.completes j).mpr ⟨_, Machine.after_unlimited hx⟩
    exact_mod_cast hcomplete.trans hle
  refine ⟨by omega, ?_⟩
  intro y hy
  have hmem : y ∈ kept limit (s.initial.states reach k) := by
    rw [← ht.history]
    exact Array.mem_toList_iff.mpr hy
  have hstep := hstates y (List.mem_of_mem_drop hmem)
  omega

/-- A session that is finished has completed all instructions that its limit lets it complete. -/
theorem Counted.le_step (hle : total ≤ N) (hl : ∀ l, s.initial.maxSteps = some l → (total : Int) ≤ l)
    (hf : s.finished = true) : total ≤ s.current.step := by
  obtain ⟨reach, limit, k, failure, ht⟩ := h.tracks
  obtain ⟨j, -, hcurrent, -, hend⟩ := ht.exists_stood h.start
  have hj := Machine.le_of_after_none h.start h.completes hle hl (hend hf)
  omega

/-- The states that a call shows count no more steps than the last one, which is the state of the session. -/
theorem Counted.shown {c : Call} {xs : List Snapshot} (hc : s.call c = (t, .ok xs)) :
    (∀ x ∈ xs, x.step ≤ t.current.step) ∧ ∀ x, xs.getLast? = some x → x = t.current := by
  obtain ⟨reach, limit, k, failure, ht⟩ := h.tracks
  have hcall := ht.call h.endless c
  rw [hc] at hcall
  cases hcall with
  | @returns _ i ys hi ht' =>
    obtain ⟨j, -, hcurrent, hstates, -⟩ := ht'.exists_stood h.start
    have hlast := ht'.getLast_eq
    rw [hi] at hstates hlast
    constructor
    · intro x hx
      rw [hcurrent]
      exact hstates x (List.mem_append_right _ hx)
    · intro x hx
      rw [List.nil_append] at hx
      rw [List.getLast?_append, hx] at hlast
      exact Option.some.inj hlast

theorem Counted.marked (breakpoints : Breakpoints) (hit : Option Int) :
    Counted N { s with breakpoints, hit } := by
  obtain ⟨reach, limit, k, failure, ht⟩ := h.tracks
  exact ⟨h.endless, h.start, h.completes, reach, limit, k, failure, ht.marked breakpoints hit⟩

theorem Counted.call (c : Call) : Counted N (s.call c).1 := by
  obtain ⟨reach, limit, k, failure, ht⟩ := h.tracks
  have hcall := ht.call h.endless c
  have hinitial := (s.call_sameConfiguration c).initial
  generalize s.call c = r at hcall hinitial
  have htracks : ∃ reach limit k failure, Tracks s.initial reach limit r.1 k failure := by
    cases hcall with
    | returns _ ht' => exact ⟨reach, limit, _, _, ht'⟩
    | fails _ ht' _ => exact ⟨reach, limit, _, _, ht'⟩
    | cutOff _ ht' _ => exact ⟨reach, limit, _, _, ht'⟩
  rw [← hinitial] at htracks
  exact ⟨hinitial ▸ h.endless, hinitial ▸ h.start, hinitial ▸ h.completes, htracks⟩

/-- A call that fails finishes the session. -/
theorem Counted.finished_of_fault {c : Call} {f : Fault} (hc : s.call c = (t, .error (.fault f))) :
    t.finished = true := by
  obtain ⟨reach, limit, k, failure, ht⟩ := h.tracks
  have hcall := ht.call h.endless c
  rw [hc] at hcall
  cases hcall with
  | fails _ ht' _ =>
    cases ht'.status with
    | failed hf _ _ _ => exact hf

end Counted

section End

/-- A run without a limit ends at the end of the session or at a breakpoint. -/
theorem runFrom_unbounded_ok {fuel : ℕ} {shown xs : List Snapshot} (h : runFrom false fuel shown s = (t, .ok xs)) :
    t.finished = true ∨ t.hit.isSome = true := by
  induction fuel generalizing s shown with
  | zero => cases h
  | succ fuel ih =>
    unfold runFrom at h
    rcases hstep : s.stepForward 1 with ⟨u, e | _ | ⟨y, ys⟩⟩
    · rw [hstep] at h
      cases h
    · rw [hstep] at h
      cases h
      -- a single step that shows nothing finds the session finished
      rw [stepForward_one, forward] at hstep
      rcases hsingle : step { s with hit := none } with ⟨w, e | _ | z⟩
      · rw [hsingle] at hstep
        cases hstep
      · rw [hsingle] at hstep
        cases hstep
        exact Or.inl (step_none hsingle)
      · rw [hsingle] at hstep
        dsimp only at hstep
        split at hstep
        · cases hstep
        · split at hstep
          · cases hstep
          · cases hstep
    · rw [hstep] at h
      dsimp only at h
      split at h
      · next hhit =>
        cases h
        exact Or.inr hhit
      · exact ih h

/-- Without breakpoints a run without a limit comes to the end of the session. -/
theorem Counted.exists_end (h : s.Counted N) (hb : s.breakpoints = {}) (hhit : s.hit = none) (hle : N ≤ total)
    {fuel : ℕ} (hfuel : total + 1 < fuel) :
    ∃ t y, s.runUntilBreak fuel none = (t, y) ∧ y ≠ .error .unfinished ∧ t.finished = true := by
  obtain ⟨reach, limit, k, failure, ht⟩ := h.tracks
  cases hf : s.finished with
  | true =>
    obtain ⟨j, rfl⟩ := Nat.exists_eq_succ_of_ne_zero (Nat.ne_zero_of_lt hfuel)
    exact ⟨s, .ok [], runFrom_of_finished hf hhit false j [], by simp, hf⟩
  | false =>
    cases ht.status with
    | ended hend => rw [hf] at hend; cases hend
    | failed hend => rw [hf] at hend; cases hend
    | running _ hp hk _ =>
      have hvalid := (Machine.after_sameSettings hk).validate h.endless.valid
      have hroams : Roams reach s := ⟨hf, hp, ht.told, hvalid, hb⟩
      have hbound : ∀ {i : ℕ} {x : Machine}, s.initial.after i = some x → i ≤ total := by
        intro i x hx
        have hcomplete := (h.completes i).mpr ⟨_, Machine.after_unlimited hx⟩
        exact_mod_cast hcomplete.trans hle
      -- the machine comes to an end behind all instructions that it completes
      obtain ⟨n, m', r, hends⟩ | hforever := s.initial.exists_ends_or_after
      · obtain ⟨x, hx⟩ := (hends.completes n).mp le_rfl
        obtain ⟨j, rfl⟩ := Nat.exists_eq_add_of_le (hends.le_of_after hk)
        have hj := hbound hx
        have hrest := (Machine.ends_add_iff hk).mp hends
        obtain ⟨t, y, hrun, hy, -⟩ := hroams.runFrom_of_ends hrest (show j + 1 < fuel by omega) []
        refine ⟨t, y, hrun, ?_, ?_⟩
        · rintro rfl
          obtain rfl : r = .error .unfinished := hy.symm
          obtain ⟨he, -⟩ | ⟨v, he⟩ := h.endless.ends_fault hends
          · cases he
          · cases he
        · cases y with
          | ok xs =>
            have hasks : Call.Asks (.run fuel none) := by
              show (1 : Int) ≤ fuel
              omega
            have hunhit := runUntilBreak_unhit hb hasks
            have hrun' : s.runUntilBreak fuel none = (t, .ok xs) := hrun
            rw [hrun'] at hunhit
            obtain hend | hmarked := runFrom_unbounded_ok hrun
            · exact hend
            · rw [hunhit] at hmarked
              cases hmarked
          | error e =>
            obtain rfl : r = .error e := hy.symm
            have hcall : s.call (.run fuel none) = (t, .error e) := hrun
            obtain ⟨rfl, -⟩ | ⟨v, rfl⟩ := h.endless.ends_fault hends
            · exact h.finished_of_fault hcall
            · exact h.finished_of_fault hcall
      · obtain ⟨x, hx⟩ := hforever (total + 1)
        have hbeyond := hbound hx
        omega

end End

section Onward

/-- A session on its way without breakpoints goes on as far as its machine does. -/
theorem Tracks.forward_onward (hm : m.Endless) (h : Tracks m reach limit s k none) (hf : s.finished = false)
    (hb : s.breakpoints = {}) {x : Machine} (hx : m.after (k + n) = some x) (shown : List Snapshot) :
    ∃ t xs, Session.forward n shown s = (t, .ok (shown.reverse ++ xs)) ∧
      m.states reach (k + n) = m.states reach k ++ xs := by
  induction n generalizing s k shown with
  | zero => exact ⟨s, [], by simp [Session.forward], by simp⟩
  | succ n ih =>
    have hindex : k + (n + 1) = k + 1 + n := by omega
    obtain ⟨y, hy⟩ := Machine.exists_after_of_le hx (show k + 1 ≤ k + (n + 1) by omega)
    obtain ⟨z, hshown, hstates, ht⟩ | ⟨f, -, -, ht⟩ := h.step hm hf
    · have hstep : s.step = (s.step.1, .ok (some z)) := Prod.ext rfl hshown
      have hbreakpoints : s.step.1.breakpoints = {} := (s.step_moves.breakpoints).trans hb
      have hgoes : s.step.1.finished = false := by
        cases ht.status with
        | running hf' _ _ _ => exact hf'
        | ended _ hk hn hhalted _ =>
          -- there would be no further instruction
          obtain rfl := Nat.succ.inj hk
          have hends : m.Ends k _ _ := .halts hn hhalted
          rw [hends.after_eq_none] at hy
          cases hy
      rw [hindex] at hx
      obtain ⟨t, xs, hrest, hall⟩ := ih ht hgoes hbreakpoints hx (z :: shown)
      have hunmarked : s.step.1.breakpoints.contains z.position = false := by
        rw [hbreakpoints]
        rfl
      refine ⟨t, z :: xs, ?_, ?_⟩
      · rw [Session.forward, hstep]
        dsimp only
        rw [if_neg (by simp [hgoes]), if_neg (by simp [hunmarked]), hrest]
        simp
      · rw [hindex, hall, hstates, List.append_assoc]
        rfl
    · cases ht.status with
      | failed _ hk hhalted he =>
        have hends : m.Ends k _ _ := .fails hk hhalted he
        rw [hends.after_eq_none] at hy
        cases hy

/-- A session without breakpoints takes any steps that its machine completes and its limit allows. -/
theorem Counted.exists_strides (h : s.Counted N) (hb : s.breakpoints = {}) (hle : total ≤ N)
    (hl : ∀ l, s.initial.maxSteps = some l → (total : Int) ≤ l) (hn : 0 < n) (hsum : s.current.step + n ≤ total) :
    ∃ t xs, s.stepForward n = (t, .ok xs) ∧
      xs.map Snapshot.step = (List.range n).map fun i : ℕ => s.current.step + 1 + i := by
  obtain ⟨reach, limit, k, failure, ht⟩ := h.tracks
  have hf : s.finished = false := by
    cases hf : s.finished with
    | false => rfl
    | true =>
      have hend := h.le_step hle hl hf
      omega
  obtain ⟨rfl, -⟩ := ht.steps hf
  cases ht.status with
  | ended hend => rw [hf] at hend; cases hend
  | running _ _ hk _ =>
    have hcurrent := Machine.step_of_getLast_states h.start hk ht.getLast_eq
    have hreach : k + n ≤ total := by omega
    have hcomplete : ((k + n : ℕ) : ℕ∞) ≤ N := le_trans (by exact_mod_cast hreach) hle
    obtain ⟨x, hx⟩ := (h.completes (k + n)).mp hcomplete
    have hx' := Machine.after_limited h.start hx (by
      intro l hl'
      have hlimit := hl l hl'
      omega)
    obtain ⟨t, xs, hstride, hstates⟩ := (ht.marked s.breakpoints none).forward_onward h.endless hf hb hx' []
    refine ⟨t, xs, ?_, ?_⟩
    · unfold stepForward
      rw [if_neg (by omega)]
      exact hstride
    · have hmap := congrArg (List.map Snapshot.step) hstates
      rw [Machine.states_steps hx', List.map_append, Machine.states_steps hk, h.start, Nat.add_right_comm,
        List.range_add, List.map_append] at hmap
      rw [← List.append_cancel_left hmap, hcurrent, List.map_map]
      refine List.map_congr_left ?_
      intro i _
      simp only [Function.comp_apply]
      omega

end Onward

end Session

end Debugger

end Brainfuck
