import Brainfuck.Proofs.Session

/-! Sessions that show and keep different things of one machine. The same calls take them the same way, so
that where a session stops does not depend on how much of it can be seen. -/
namespace Brainfuck.Debugger.Session
open Stepper (Agree)

/-- Two sessions that show and keep different things, and are the same else. -/
structure Alike (s t : Session) : Prop where
  machine : s.machine = t.machine
  phase : s.stepper.phase = t.stepper.phase
  finished : s.finished = t.finished
  breakpoints : s.breakpoints = t.breakpoints
  hit : s.hit = t.hit
  told : ∃ reach, s.stepper.reach = .ok reach
  told' : ∃ reach, t.stepper.reach = .ok reach

/-- What two calls to such sessions lead to. -/
structure AlikeBehind {α β : Type} (f : α → β) (r r' : Session × Except Stop α) : Prop where
  session : Alike r.1 r'.1
  answer : Agree f r.2 r'.2

variable {s t : Session}

/-- Machines and steppers that go on in the same way leave sessions alike, whatever is shown and kept. -/
theorem Alike.moved (h : Alike s t) {m : Machine} {u v : Stepper} (hp : u.phase = v.phase)
    (hu : u.reach = s.stepper.reach) (hv : v.reach = t.stepper.reach) (x y : Snapshot)
    (xs ys : Array Snapshot) (finished : Bool) :
    Alike { s with machine := m, stepper := u, current := x, history := xs, finished }
      { t with machine := m, stepper := v, current := y, history := ys, finished } where
  machine := rfl
  phase := hp
  finished := rfl
  breakpoints := h.breakpoints
  hit := h.hit
  told := by
    obtain ⟨reach, hs⟩ := h.told
    exact ⟨reach, hu.trans hs⟩
  told' := by
    obtain ⟨reach, ht⟩ := h.told'
    exact ⟨reach, hv.trans ht⟩

/-- Marking both in the same way leaves sessions alike. -/
theorem Alike.marked (h : Alike s t) {breakpoints breakpoints' : Breakpoints} {hit hit' : Option Int}
    (hb : breakpoints = breakpoints') (hh : hit = hit') :
    Alike { s with breakpoints, hit } { t with breakpoints := breakpoints', hit := hit' } :=
  ⟨h.machine, h.phase, h.finished, hb, hh, h.told, h.told'⟩

theorem Alike.step (h : Alike s t) : AlikeBehind (Option.map Snapshot.blind) s.step t.step := by
  obtain ⟨reach, hs⟩ := h.told
  obtain ⟨reach', ht⟩ := h.told'
  cases hf : s.finished with
  | true =>
    rw [step_of_finished hf, step_of_finished (h.finished.symm.trans hf)]
    exact ⟨h, .ok rfl⟩
  | false =>
    have hf' : t.finished = false := h.finished.symm.trans hf
    obtain ⟨hmachine, hphase, hanswer⟩ := Stepper.next_agree hs ht h.phase s.machine
    have hreach := s.stepper.next_reach s.machine
    have hreach' := t.stepper.next_reach s.machine
    unfold Session.step
    rw [if_neg (by simp [hf]), if_neg (by simp [hf']), ← h.machine]
    generalize s.stepper.next s.machine = r at hmachine hphase hanswer hreach
    generalize t.stepper.next s.machine = r' at hmachine hphase hanswer hreach'
    obtain ⟨m, s', y⟩ := r
    obtain ⟨m', t', y'⟩ := r'
    obtain rfl : m = m' := hmachine
    have hmoved := h.moved (m := m) hphase hreach hreach'
    dsimp only at hanswer ⊢
    cases hanswer with
    | @ok x x' hx =>
      have hcommand := (Snapshot.eq_of_blind hx).1
      dsimp only
      rw [hcommand]
      exact ⟨hmoved _ _ _ _ _, .ok (congrArg some hx)⟩
    | @error e =>
      have hsession := hmoved s.current t.current s.history t.history
      split
      · next heq => cases heq
      · exact ⟨hsession true, .ok rfl⟩
      · exact ⟨hsession _, .error⟩
      · have hunfinished := hsession s.finished
        rw [hf] at hunfinished
        rw [hf, hf']
        exact ⟨hunfinished, .error⟩

/-- What has been collected, the latest first, is the same as an answer, too. -/
theorem agree_reverse {xs ys : List Snapshot} (h : xs.map Snapshot.blind = ys.map Snapshot.blind) :
    Agree (List.map Snapshot.blind) (.ok xs.reverse) (.ok ys.reverse) := by
  have hreverse : xs.reverse.map Snapshot.blind = ys.reverse.map Snapshot.blind := by
    rw [List.map_reverse, List.map_reverse, h]
  exact .ok hreverse

theorem Alike.forward (h : Alike s t) (n : Nat) {shown shown' : List Snapshot}
    (hshown : shown.map Snapshot.blind = shown'.map Snapshot.blind) :
    AlikeBehind (List.map Snapshot.blind) (forward n shown s) (forward n shown' t) := by
  induction n generalizing s t shown shown' with
  | zero => exact ⟨h, agree_reverse hshown⟩
  | succ n ih =>
    obtain ⟨hsession, hanswer⟩ := h.step
    unfold Session.forward
    generalize s.step = r at hsession hanswer
    generalize t.step = r' at hsession hanswer
    obtain ⟨s', y⟩ := r
    obtain ⟨t', y'⟩ := r'
    dsimp only at hsession hanswer
    cases hanswer with
    | error => exact ⟨hsession, .error⟩
    | @ok o o' hx =>
      cases o with
      | none =>
        cases o' with
        | none => exact ⟨hsession, agree_reverse hshown⟩
        | some x' => cases hx
      | some x =>
        cases o' with
        | none => cases hx
        | some x' =>
          have hx : x.blind = x'.blind := Option.some.inj hx
          have hposition := (Snapshot.eq_of_blind hx).2
          have hcons : (x :: shown).map Snapshot.blind = (x' :: shown').map Snapshot.blind := by
            rw [List.map_cons, List.map_cons, hx, hshown]
          have hend : s'.finished = true ↔ t'.finished = true := by rw [hsession.finished]
          have hstop : s'.breakpoints.contains x.position = true ↔
              t'.breakpoints.contains x'.position = true := by
            rw [hsession.breakpoints, hposition]
          dsimp only
          by_cases hf : t'.finished = true
          · rw [if_pos hf, if_pos (hend.mpr hf)]
            exact ⟨hsession, agree_reverse hcons⟩
          · rw [if_neg hf, if_neg (mt hend.mp hf)]
            by_cases hb : t'.breakpoints.contains x'.position = true
            · have hmarked := hsession.marked hsession.breakpoints (congrArg some hposition)
              rw [if_pos hb, if_pos (hstop.mpr hb)]
              exact ⟨hmarked, agree_reverse hcons⟩
            · rw [if_neg hb, if_neg (mt hstop.mp hb)]
              exact ih hsession hcons

theorem Alike.stepForward (h : Alike s t) (count : Int) :
    AlikeBehind (List.map Snapshot.blind) (s.stepForward count) (t.stepForward count) := by
  unfold Session.stepForward
  split
  · exact ⟨h, .ok rfl⟩
  · have hcleared := h.marked h.breakpoints (rfl : (none : Option Int) = none)
    exact hcleared.forward count.toNat rfl

theorem Alike.runFrom (h : Alike s t) (bounded : Bool) (n : Nat) {shown shown' : List Snapshot}
    (hshown : shown.map Snapshot.blind = shown'.map Snapshot.blind) :
    AlikeBehind (List.map Snapshot.blind) (runFrom bounded n shown s) (runFrom bounded n shown' t) := by
  induction n generalizing s t shown shown' with
  | zero =>
    cases bounded with
    | true => exact ⟨h, agree_reverse hshown⟩
    | false => exact ⟨h, .error⟩
  | succ n ih =>
    obtain ⟨hsession, hanswer⟩ := h.stepForward 1
    unfold Session.runFrom
    generalize s.stepForward 1 = r at hsession hanswer
    generalize t.stepForward 1 = r' at hsession hanswer
    obtain ⟨s', y⟩ := r
    obtain ⟨t', y'⟩ := r'
    dsimp only at hsession hanswer
    cases hanswer with
    | error => exact ⟨hsession, .error⟩
    | @ok xs xs' hxs =>
      cases xs with
      | nil =>
        cases xs' with
        | nil => exact ⟨hsession, agree_reverse hshown⟩
        | cons x' xs' => cases hxs
      | cons x xs =>
        cases xs' with
        | nil => cases hxs
        | cons x' xs' =>
          have hrest : ((x :: xs).reverse ++ shown).map Snapshot.blind =
              ((x' :: xs').reverse ++ shown').map Snapshot.blind := by
            rw [List.map_append, List.map_append, List.map_reverse, List.map_reverse, hxs, hshown]
          dsimp only
          rw [hsession.hit]
          split
          · exact ⟨hsession, agree_reverse hrest⟩
          · exact ih hsession hrest

theorem Alike.call (h : Alike s t) (c : Call) :
    AlikeBehind (List.map Snapshot.blind) (s.call c) (t.call c) := by
  cases c with
  | step count => exact h.stepForward count
  | run fuel bound =>
    cases bound with
    | none => exact h.runFrom false fuel rfl
    | some bound => exact h.runFrom true bound.toNat rfl
  | clear =>
    have hcleared := h.marked (rfl : ({} : Breakpoints) = {}) h.hit
    exact ⟨hcleared, .ok rfl⟩
  | add p =>
    have hinsert := congrArg (Breakpoints.insert · p) h.breakpoints
    exact ⟨h.marked hinsert h.hit, .ok rfl⟩
  | remove p =>
    have herase := congrArg (Breakpoints.erase · p) h.breakpoints
    have hcontains : s.breakpoints.contains p = true ↔ t.breakpoints.contains p = true := by
      rw [h.breakpoints]
    simp only [Session.call, removeBreakpoint]
    by_cases hp : t.breakpoints.contains p = true
    · rw [if_pos hp, if_pos (hcontains.mpr hp)]
      exact ⟨h.marked herase h.hit, .ok rfl⟩
    · rw [if_neg hp, if_neg (mt hcontains.mp hp)]
      exact ⟨h, .ok rfl⟩

theorem Alike.after (h : Alike s t) (calls : List Call) : Alike (s.after calls) (t.after calls) := by
  induction calls generalizing s t with
  | nil => exact h
  | cons c calls ih => exact ih (h.call c).session

theorem begin_alike (m : Machine) (breakpoints : Breakpoints) (reach limit reach' limit' : Int) :
    Alike (begin reach limit m breakpoints) (begin reach' limit' m breakpoints) :=
  ⟨rfl, rfl, rfl, rfl, rfl, ⟨reach, rfl⟩, ⟨reach', rfl⟩⟩

end Brainfuck.Debugger.Session
