import Brainfuck.Machine.Stepper
import Brainfuck.Proofs.Trace

/-! Steppers. A live stepper is a cycle away from its next snapshot, and draining one comes to the same
end as the cycles do. -/
namespace Brainfuck.Stepper
variable {s : Stepper} {m m' : Machine} {reach : Int}

theorem next_of_spent (hs : s.phase = .spent) (m : Machine) :
    s.next m = ⟨m, s, .error (.fault .stepperExhausted)⟩ := by
  simp only [next, hs]

theorem next_of_live (hs : s.phase ≠ .spent) (hv : m.program.validate = .ok ()) :
    s.next m = s.advance m := by
  cases hp : s.phase with
  | fresh => simp only [next, hp, hv]
  | walking => simp only [next, hp]
  | spent => exact absurd hp hs

theorem next_of_invalid {f : Fault} (hs : s.phase = .fresh) (hv : m.program.validate = .error f) :
    s.next m = ⟨m, { s with phase := .spent }, .error (.fault f)⟩ := by
  simp only [next, hs, hv]

section Advance
variable (hr : s.reach = .ok reach)
include hr

theorem view_ok (m : Machine) (command : Option String) :
    s.view m command = .ok (m.snapshot command reach) := by
  simp only [view, hr]
  rfl

theorem advance_of_halted (hm : m.halted = true) :
    s.advance m = ⟨m, { s with phase := .spent }, .ok (m.snapshot none reach)⟩ := by
  simp only [advance, hm, if_true, view_ok hr]

theorem advance_of_ok {c : Instruction} (hc : m.cycle = (m', .ok c)) :
    s.advance m = ⟨m', { s with phase := .walking }, .ok (m'.snapshot (some c.toString) reach)⟩ := by
  simp [advance, Machine.not_halted_of_cycle_ok hc, hc, view_ok hr]

end Advance

theorem advance_of_error {e : Stop} (hm : m.halted = false) (he : m.cycle = (m', .error e)) :
    s.advance m = ⟨m', { s with phase := .spent }, .error e⟩ := by
  simp [advance, hm, he]

theorem next_reach (s : Stepper) (m : Machine) : (s.next m).stepper.reach = s.reach := by
  have hadvance : (s.advance m).stepper.reach = s.reach := by
    unfold advance
    split
    · rfl
    · split
      · rfl
      · split <;> rfl
  unfold next
  split
  · rfl
  · exact hadvance
  · split
    · rfl
    · exact hadvance

theorem next_sameSettings (s : Stepper) (m : Machine) : m.SameSettings (s.next m).machine := by
  have hadvance : m.SameSettings (s.advance m).machine := by
    unfold advance
    split
    · exact .refl m
    · split
      · next hc => exact .of_cycle hc
      · next hc => split <;> exact .of_cycle hc
  unfold next
  split
  · exact .refl m
  · exact hadvance
  · split
    · exact .refl m
    · exact hadvance

/-- Two results that are the same as far as `f` tells. -/
inductive Agree {α β : Type} (f : α → β) : Except Stop α → Except Stop α → Prop where
  | ok {x y : α} (h : f x = f y) : Agree f (.ok x) (.ok y)
  | error {e : Stop} : Agree f (.error e) (.error e)

/-- How far a stepper looks changes nothing but the part of the tape that it shows. -/
theorem next_agree {t : Stepper} {reach' : Int} (hs : s.reach = .ok reach) (ht : t.reach = .ok reach')
    (hp : s.phase = t.phase) (m : Machine) :
    (s.next m).machine = (t.next m).machine ∧
      (s.next m).stepper.phase = (t.next m).stepper.phase ∧
      Agree Snapshot.blind (s.next m).shown (t.next m).shown := by
  have hadvance : (s.advance m).machine = (t.advance m).machine ∧
      (s.advance m).stepper.phase = (t.advance m).stepper.phase ∧
      Agree Snapshot.blind (s.advance m).shown (t.advance m).shown := by
    cases hm : m.halted with
    | true =>
      rw [advance_of_halted hs hm, advance_of_halted ht hm]
      exact ⟨rfl, rfl, .ok (m.snapshot_blind none reach reach')⟩
    | false =>
      rcases hc : m.cycle with ⟨m', e | c⟩
      · rw [advance_of_error hm hc, advance_of_error hm hc]
        exact ⟨rfl, rfl, .error⟩
      · rw [advance_of_ok hs hc, advance_of_ok ht hc]
        exact ⟨rfl, rfl, .ok (m'.snapshot_blind _ reach reach')⟩
  cases hphase : s.phase with
  | spent =>
    rw [next_of_spent hphase, next_of_spent (hp.symm.trans hphase)]
    exact ⟨rfl, hp, .error⟩
  | walking =>
    simp only [next, hphase, hp.symm.trans hphase]
    exact hadvance
  | fresh =>
    cases hv : m.program.validate with
    | error f =>
      rw [next_of_invalid hphase hv, next_of_invalid (hp.symm.trans hphase) hv]
      exact ⟨rfl, rfl, .error⟩
    | ok u =>
      simp only [next, hphase, hp.symm.trans hphase, hv]
      exact hadvance

section Drain
variable (hv : m.program.validate = .ok ())
include hv

/-- Draining a live stepper shows all cycles up to their end. -/
theorem drainFrom_of_ends {n : Nat} {r : Except Stop Unit} (hr : s.reach = .ok reach)
    (hs : s.phase ≠ .spent) (h : m.Ends n m' r) (shown : List Snapshot) :
    ∃ t xs, drainFrom (n + 2) shown s m = ⟨m', t, xs⟩ ∧ xs.map (fun _ => ()) = r := by
  induction n generalizing s m shown with
  | zero =>
    unfold drainFrom
    rw [if_neg hs, next_of_live hs hv]
    cases h with
    | halts hn hm =>
      obtain rfl := Option.some.inj hn
      rw [advance_of_halted hr hm]
      exact ⟨_, _, rfl, rfl⟩
    | fails hn hm he =>
      obtain rfl := Option.some.inj hn
      rw [advance_of_error hm he]
      exact ⟨_, _, rfl, rfl⟩
  | succ n ih =>
    obtain ⟨m₁, c, hc, hn⟩ := h.exists_cycle
    have hvalid := (Machine.SameSettings.of_cycle hc).validate hv
    unfold drainFrom
    rw [if_neg hs, next_of_live hs hv, advance_of_ok hr hc]
    exact ih (s := { s with phase := .walking }) hvalid hr nofun hn _

/-- A stepper that has been drained has come to the end of the cycles. -/
theorem ends_of_drainFrom {fuel : Nat} {shown : List Snapshot} {t : Stepper}
    {xs : Except Stop (List Snapshot)} (hr : s.reach = .ok reach) (hs : s.phase ≠ .spent)
    (h : drainFrom fuel shown s m = ⟨m', t, xs⟩) (hxs : xs ≠ .error .unfinished) :
    ∃ n, m.Ends n m' (xs.map fun _ => ()) := by
  induction fuel generalizing s m shown with
  | zero =>
    cases h
    exact absurd rfl hxs
  | succ fuel ih =>
    unfold drainFrom at h
    rw [if_neg hs, next_of_live hs hv] at h
    cases hm : m.halted with
    | true =>
      rw [advance_of_halted hr hm] at h
      cases fuel with
      | zero =>
        cases h
        exact absurd rfl hxs
      | succ fuel =>
        cases h
        exact ⟨0, .halts rfl hm⟩
    | false =>
      rcases hc : m.cycle with ⟨m₁, e | c⟩
      · rw [advance_of_error hm hc] at h
        cases h
        exact ⟨0, .fails rfl hm hc⟩
      · have hvalid := (Machine.SameSettings.of_cycle hc).validate hv
        rw [advance_of_ok hr hc] at h
        obtain ⟨n, hn⟩ := ih (s := { s with phase := .walking }) hvalid hr nofun h
        exact ⟨n + 1, hn.cycle hc⟩

theorem exists_drain_iff {r : Except Stop Unit} (hr : s.reach = .ok reach) (hs : s.phase ≠ .spent)
    (hne : r ≠ .error .unfinished) (t : Machine) :
    (∃ fuel, (s.drain fuel m).machine.bare = t ∧ (s.drain fuel m).shown.map (fun _ => ()) = r) ↔
      ∃ n m', m.Ends n m' r ∧ m'.bare = t := by
  constructor
  · rintro ⟨fuel, rfl, hshown⟩
    have hxs : (s.drain fuel m).shown ≠ .error .unfinished := by
      intro h
      rw [h] at hshown
      exact hne hshown.symm
    obtain ⟨n, hn⟩ := ends_of_drainFrom hv hr hs rfl hxs
    rw [← hshown]
    exact ⟨n, _, hn, rfl⟩
  · rintro ⟨n, m', hn, rfl⟩
    obtain ⟨u, xs, hdrain, hxs⟩ := drainFrom_of_ends hv hr hs hn []
    refine ⟨n + 2, ?_, ?_⟩
    · rw [drain, hdrain]
    · rw [drain, hdrain, hxs]

end Drain

end Brainfuck.Stepper
