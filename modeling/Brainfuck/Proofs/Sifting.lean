import Brainfuck.Proofs.LockStep
import Brainfuck.Proofs.Pool

/-! Sifting. A read passes over the values that do not fit, so that a machine cannot tell whether they are there.
Machines whose inputs differ in nothing else go the same way, however runs and steps take turns at them. -/
namespace Brainfuck

namespace Input

/-- The input without the pending values that lie out of bounds. -/
def sift (lo hi : Int) (input : Input) : Input :=
  { input with pending := input.pending.filter fun v => v.between? lo hi != some false }

/-- A search finds the same without the values that it passes over. -/
theorem readWithin_sift (lo hi : Int) (input : Input) :
    (input.sift lo hi).readWithin lo hi =
      ⟨(input.readWithin lo hi).outcome, (input.readWithin lo hi).rest.sift lo hi, []⟩ := by
  obtain ⟨pending, ending⟩ := input
  induction pending with
  | nil =>
    simp only [sift, readWithin, List.filter_nil, seek]
    cases ending.value with
    | error f => rfl
    | ok v =>
      dsimp only
      cases v.between? lo hi with
      | none => rfl
      | some fits => cases fits <;> rfl
  | cons v vs ih =>
    simp only [sift, readWithin] at ih ⊢
    cases hv : v.between? lo hi with
    | none =>
      rw [List.filter_cons_of_pos (by simp [hv])]
      simp only [seek, hv]
    | some fits =>
      cases fits with
      | true =>
        rw [List.filter_cons_of_pos (by simp [hv])]
        simp only [seek, hv]
      | false =>
        rw [List.filter_cons_of_neg (by simp [hv]), ih]
        simp only [seek, hv]

end Input

namespace Machine

def refed (m : Machine) (input : Input) (journal : Array Event) : Machine :=
  { m with input, journal }

section Refed
variable (m : Machine) (input : Input) (journal : Array Event)

theorem store_refed (v : Datum) :
    (m.refed input journal).store v = ((m.store v).1.refed input journal, (m.store v).2) :=
  store_changed (g := (refed · input journal)) rfl rfl (fun _ => rfl) v

private theorem update_refed (f : Tape → Int → Int) :
    (m.refed input journal).update f = ((m.update f).1.refed input journal, (m.update f).2) :=
  update_changed (g := (refed · input journal)) rfl rfl fun _ _ => m.store_refed input journal _

private theorem send_refed :
    (m.refed input journal).send = (m.send.1.refed input journal, m.send.2) :=
  send_changed (g := (refed · input journal)) rfl (fun _ => rfl) fun _ => rfl

private theorem jumpIf_refed (d : Direction) (test : Int → Bool) :
    (m.refed input journal).jumpIf d test = ((m.jumpIf d test).1.refed input journal, (m.jumpIf d test).2) :=
  jumpIf_changed (g := (refed · input journal)) rfl rfl rfl (fun _ => rfl) d test

/-- Only a read looks at the input, and none at the journal. -/
theorem perform_refed {c : Instruction} (hc : c ≠ .read) :
    (m.refed input journal).perform c = ((m.perform c).1.refed input journal, (m.perform c).2) := by
  cases c with
  | right => rfl
  | left => rfl
  | increment => exact m.update_refed input journal _
  | decrement => exact m.update_refed input journal _
  | read => exact absurd rfl hc
  | write => exact m.send_refed input journal
  | loopOpen => exact m.jumpIf_refed input journal _ _
  | loopClose => exact m.jumpIf_refed input journal _ _

end Refed

/-- The machine without its journal, and without the values in its input that do not fit. -/
def sifted (m : Machine) : Machine :=
  m.refed (m.input.sift m.tape.minimum m.tape.maximum) #[]

def unfed (m : Machine) : Machine :=
  m.refed (.ofValues [] none) #[]

section Sifted
variable (m : Machine)

private theorem store_sifted (v : Datum) : m.sifted.store v = ((m.store v).1.sifted, (m.store v).2) := by
  obtain ⟨hsettings, -⟩ := m.store_spares .read v
  obtain ⟨tape, h⟩ := m.store_footprint v
  have hinput : (m.store v).1.input = m.input := by rw [h]
  unfold sifted
  rw [store_refed, hsettings.minimum, hsettings.maximum, hinput]

private theorem receive_sifted : m.sifted.receive = (m.receive.1.sifted, m.receive.2) := by
  have hread := Input.readWithin_sift m.tape.minimum m.tape.maximum m.input
  have hread : m.sifted.input.readWithin m.sifted.tape.minimum m.sifted.tape.maximum = _ := hread
  unfold receive
  rw [hread]
  generalize m.input.readWithin m.tape.minimum m.tape.maximum = r
  obtain ⟨outcome, rest, discarded⟩ := r
  cases outcome with
  | error e => rfl
  | ok v => exact store_sifted (m.refed rest (m.journal ++ (discarded.map Event.discarded).toArray)) v

theorem perform_sifted (c : Instruction) : m.sifted.perform c = ((m.perform c).1.sifted, (m.perform c).2) := by
  -- a read passes over what has been sifted out; nothing else looks at the input
  by_cases hc : c = .read
  · subst hc
    exact m.receive_sifted
  · obtain ⟨hsettings, -⟩ := m.perform_spares c
    unfold sifted
    rw [m.perform_refed _ _ hc, hsettings.minimum, hsettings.maximum, (m.perform_footprint c).input hc]

/-- A cycle goes the same way without the values that do not fit. -/
theorem cycle_sifted : m.sifted.cycle = (m.cycle.1.sifted, m.cycle.2) :=
  cycle_changed rfl rfl rfl (fun _ => rfl) fun c _ _ => m.perform_sifted c

theorem commutes_sifted : Commutes sifted fun _ _ => True where
  program _ := rfl
  halted _ := rfl
  cycle {_ m} _ _ := m.cycle_sifted
  later _ _ := trivial

end Sifted

section Course
variable {m m' : Machine} (h : m.sifted = m'.sifted)
include h

/-- Whatever can be told without the values that do not fit is told alike. -/
theorem eq_of_sifted {α : Type} {f : Machine → α} (hf : ∀ m : Machine, f m.sifted = f m) : f m = f m' := by
  rw [← hf m, ← hf m', h]

theorem halted_course : m.halted = m'.halted :=
  eq_of_sifted h fun _ => rfl

theorem program_course : m.program = m'.program :=
  eq_of_sifted h fun _ => rfl

theorem unfed_course : m.unfed = m'.unfed :=
  eq_of_sifted h fun _ => rfl

theorem cycle_course : m.cycle.1.sifted = m'.cycle.1.sifted ∧ m.cycle.2 = m'.cycle.2 := by
  have hcycle := m.cycle_sifted
  rw [h, m'.cycle_sifted] at hcycle
  obtain ⟨hmachine, hresult⟩ := Prod.mk.inj hcycle
  exact ⟨hmachine.symm, hresult.symm⟩

theorem after_course (n : Nat) : (m.after n).map sifted = (m'.after n).map sifted := by
  have hafter : m.sifted.after n = _ := commutes_sifted.after trivial
  rw [← hafter, h, commutes_sifted.after trivial]

theorem loop_course (fuel : Nat) :
    (loop fuel m).1.sifted = (loop fuel m').1.sifted ∧ (loop fuel m).2 = (loop fuel m').2 := by
  have hloop : loop fuel m.sifted = _ := commutes_sifted.loop trivial
  rw [h, commutes_sifted.loop trivial] at hloop
  obtain ⟨hmachine, hresult⟩ := Prod.mk.inj hloop
  exact ⟨hmachine.symm, hresult.symm⟩

omit h in
theorem leave_sifted (r : Machine × Except Stop Unit) : (leave r).1.sifted = r.1.sifted ∧ (leave r).2 = r.2 := by
  obtain ⟨m, e | u⟩ := r
  · exact ⟨rfl, rfl⟩
  · exact ⟨rfl, rfl⟩

theorem run_course (fuel : Nat) :
    (m.run fuel).1.sifted = (m'.run fuel).1.sifted ∧ (m.run fuel).2 = (m'.run fuel).2 := by
  have hprogram := program_course h
  cases hv : m'.program.validate with
  | error f =>
    rw [run_of_invalid hv, run_of_invalid (hprogram ▸ hv)]
    exact ⟨h, rfl⟩
  | ok u =>
    have hentered : m.entered.sifted = m'.entered.sifted := h
    obtain ⟨hmachine, hresult⟩ := loop_course hentered fuel
    obtain ⟨hleave, hend⟩ := leave_sifted (loop fuel m.entered)
    obtain ⟨hleave', hend'⟩ := leave_sifted (loop fuel m'.entered)
    rw [run_of_valid hv, run_of_valid (hprogram ▸ hv), hleave, hleave', hend, hend']
    exact ⟨hmachine, hresult⟩

end Course

end Machine

namespace Stepper
variable {m m' : Machine} (h : m.sifted = m'.sifted) (s : Stepper)

/-- Two steps that show the same, at machines between which there is no difference but in what does not fit. -/
structure Step.Same (r r' : Step) : Prop where
  machine : r.machine.sifted = r'.machine.sifted
  stepper : r.stepper = r'.stepper
  shown : r.shown = r'.shown

include h

theorem view_course (command : Option String) : s.view m command = s.view m' command :=
  Machine.eq_of_sifted (f := fun m => s.view m command) h fun _ => rfl

theorem advance_course : (s.advance m).Same (s.advance m') := by
  obtain ⟨hmachine, hresult⟩ := Machine.cycle_course h
  unfold advance
  rw [Machine.halted_course h, view_course h]
  cases m'.halted with
  | true => exact ⟨h, rfl, rfl⟩
  | false =>
    generalize m.cycle = r at hmachine hresult
    generalize m'.cycle = r' at hmachine hresult
    obtain ⟨m₁, y⟩ := r
    obtain ⟨m₂, y'⟩ := r'
    obtain rfl : y = y' := hresult
    cases y with
    | error e => exact ⟨hmachine, rfl, rfl⟩
    | ok c =>
      have hshown := view_course hmachine s (some c.toString)
      dsimp only
      rw [hshown]
      cases s.view m₂ (some c.toString) with
      | error e => exact ⟨hmachine, rfl, rfl⟩
      | ok x => exact ⟨hmachine, rfl, rfl⟩

theorem next_course : (s.next m).Same (s.next m') := by
  have hadvance := advance_course h s
  unfold next
  rw [Machine.program_course h]
  cases s.phase with
  | spent => exact ⟨h, rfl, rfl⟩
  | walking => exact hadvance
  | fresh =>
    cases m'.program.validate with
    | error f => exact ⟨h, rfl, rfl⟩
    | ok u => exact hadvance

end Stepper

namespace Pool

/-- Two pools with the same steppers, at machines between which there is no difference but in what does not fit. -/
structure Same (q q' : Pool) : Prop where
  machine : q.machine.sifted = q'.machine.sifted
  steppers : q.steppers = q'.steppers

variable {q q' : Pool}

theorem Same.call (h : Same q q') (c : Call) : Same (q.call c).1 (q'.call c).1 ∧ (q.call c).2 = (q'.call c).2 := by
  cases c with
  | run fuel =>
    obtain ⟨hmachine, hresult⟩ := Machine.run_course h.machine fuel
    exact ⟨⟨hmachine, h.steppers⟩, congrArg Reply.ofRun hresult⟩
  | make reach => exact ⟨⟨h.machine, congrArg (· ++ [_]) h.steppers⟩, rfl⟩
  | next i =>
    cases hs : q'.steppers[i]? with
    | none =>
      rw [call_next_none hs, call_next_none (h.steppers ▸ hs)]
      exact ⟨h, rfl⟩
    | some s =>
      obtain ⟨hmachine, hstepper, hshown⟩ := Stepper.next_course h.machine s
      rw [call_next hs, call_next (h.steppers ▸ hs), h.steppers, hstepper, hshown]
      exact ⟨⟨hmachine, rfl⟩, rfl⟩

theorem Same.calls (h : Same q q') (calls : List Call) :
    Same (q.after calls) (q'.after calls) ∧ q.answers calls = q'.answers calls := by
  induction calls generalizing q q' with
  | nil => exact ⟨h, rfl⟩
  | cons c calls ih =>
    obtain ⟨hsame, hanswer⟩ := h.call c
    obtain ⟨hafter, hanswers⟩ := ih hsame
    rw [answers_cons, answers_cons, hanswer, hanswers]
    exact ⟨hafter, rfl⟩

end Pool

end Brainfuck
