import Brainfuck.Proofs.Calls
import Brainfuck.Proofs.Stepper

/-! Several steppers and runs that take turns at one machine. -/
namespace Brainfuck

/-- A machine and the steppers that have been made for it. -/
structure Pool where
  machine : Machine
  steppers : List Stepper := []

namespace Pool

/-- What can be asked of a pool: a run, which is cut off when it does not end within `fuel` cycles, a new
stepper, or the next step of a stepper. -/
inductive Call where
  | run (fuel : Nat)
  | make (reach : Int)
  | next (i : Nat)

/-- The answer to a call. A run that has come to its end and a new stepper show nothing. -/
inductive Reply where
  | nothing
  | shown (x : Snapshot)
  | raised (e : Stop)

def Reply.ofRun : Except Stop Unit → Reply
  | .ok () => nothing
  | .error e => raised e

def Reply.ofStep : Except Stop Snapshot → Reply
  | .ok x => shown x
  | .error e => raised e

theorem Reply.ofRun_raised {r : Except Stop Unit} {e : Stop} (h : ofRun r = .raised e) :
    r = .error e := by
  cases r with
  | ok u => cases h
  | error e' => rw [Reply.raised.inj h]

theorem Reply.ofStep_raised {r : Except Stop Snapshot} {e : Stop} (h : ofStep r = .raised e) :
    r = .error e := by
  cases r with
  | ok x => cases h
  | error e' => rw [Reply.raised.inj h]

/-- The pool behind a call, and the answer. Nothing comes of a call to a stepper that is not there. -/
def call (q : Pool) : Call → Pool × Reply
  | .run fuel =>
    ({ q with machine := (q.machine.run fuel).1 }, .ofRun (q.machine.run fuel).2)
  | .make reach => ({ q with steppers := q.steppers ++ [{ reach := .ok reach }] }, .nothing)
  | .next i =>
    match q.steppers[i]? with
    | none => (q, .nothing)
    | some s =>
      let r := s.next q.machine
      (⟨r.machine, q.steppers.set i r.stepper⟩, .ofStep r.shown)

theorem call_next_none {q : Pool} {i : Nat} (hs : q.steppers[i]? = none) :
    q.call (.next i) = (q, .nothing) := by
  simp only [call, hs]

theorem call_next {q : Pool} {i : Nat} {s : Stepper} (hs : q.steppers[i]? = some s) :
    q.call (.next i) =
      (⟨(s.next q.machine).machine, q.steppers.set i (s.next q.machine).stepper⟩,
        .ofStep (s.next q.machine).shown) := by
  simp only [call, hs]

/-- A stepper keeps its position and what it shows, and a spent one stays spent. -/
theorem exists_stepper_call {q : Pool} {i : Nat} {s : Stepper} (hs : q.steppers[i]? = some s) (c : Call) :
    ∃ t, (q.call c).1.steppers[i]? = some t ∧ t.reach = s.reach ∧
      (s.phase = .spent → t.phase = .spent) := by
  obtain ⟨hi, -⟩ := List.getElem?_eq_some_iff.mp hs
  cases c with
  | run fuel => exact ⟨s, hs, rfl, id⟩
  | make reach => exact ⟨s, by rw [call, List.getElem?_append_left hi, hs], rfl, id⟩
  | next j =>
    cases ht : q.steppers[j]? with
    | none => exact ⟨s, by rw [call_next_none ht, hs], rfl, id⟩
    | some t =>
      rw [call_next ht]
      by_cases hj : j = i
      · subst hj
        obtain rfl := Option.some.inj (hs.symm.trans ht)
        refine ⟨_, List.getElem?_set_self hi, s.next_reach _, ?_⟩
        intro hspent
        rw [Stepper.next_of_spent hspent, hspent]
      · exact ⟨s, by rw [List.getElem?_set_ne hj, hs], rfl, id⟩

/-- All steppers have been told what to show. -/
def Told (q : Pool) : Prop :=
  ∀ s ∈ q.steppers, ∃ reach, s.reach = .ok reach

theorem Told.call {q : Pool} (h : q.Told) (c : Call) : (q.call c).1.Told := by
  cases c with
  | run fuel => exact h
  | make reach =>
    intro s hs
    obtain hs | hs := List.mem_append.mp hs
    · exact h s hs
    · obtain rfl := List.mem_singleton.mp hs
      exact ⟨reach, rfl⟩
  | next i =>
    cases hs : q.steppers[i]? with
    | none =>
      rw [call_next_none hs]
      exact h
    | some s =>
      rw [call_next hs]
      intro t ht
      obtain ht | rfl := List.mem_or_eq_of_mem_set ht
      · exact h t ht
      · rw [Stepper.next_reach]
        exact h s (List.mem_of_getElem? hs)

theorem call_sameSettings (q : Pool) (c : Call) : q.machine.SameSettings (q.call c).1.machine := by
  cases c with
  | run fuel => exact Machine.run_sameSettings fuel q.machine
  | make reach => exact .refl q.machine
  | next i =>
    cases hs : q.steppers[i]? with
    | none =>
      rw [call_next_none hs]
      exact .refl q.machine
    | some s =>
      rw [call_next hs]
      exact s.next_sameSettings q.machine

abbrev after (q : Pool) (calls : List Call) : Pool :=
  Calls.after call q calls

abbrev answers (q : Pool) (calls : List Call) : List (Call × Reply) :=
  Calls.answers call q calls

theorem after_cons (q : Pool) (c : Call) (calls : List Call) :
    q.after (c :: calls) = (q.call c).1.after calls := rfl

theorem answers_cons (q : Pool) (c : Call) (calls : List Call) :
    q.answers (c :: calls) = (c, (q.call c).2) :: (q.call c).1.answers calls := rfl

/-- The pools that calls lead to, from a machine without steppers. -/
def Reachable (m : Machine) (q : Pool) : Prop :=
  ∃ calls, q = after ⟨m, []⟩ calls

theorem exists_stepper_after {q : Pool} {i : Nat} {s : Stepper} (hs : q.steppers[i]? = some s)
    (calls : List Call) : ∃ t, (q.after calls).steppers[i]? = some t ∧ t.reach = s.reach := by
  induction calls generalizing q s with
  | nil => exact ⟨s, hs, rfl⟩
  | cons c calls ih =>
    obtain ⟨t, ht, hreach, -⟩ := exists_stepper_call hs c
    obtain ⟨u, hu, hreach'⟩ := ih ht
    exact ⟨u, hu, hreach'.trans hreach⟩

end Pool

/-- A property of machines that neither a cycle nor an entry in the journal takes away. -/
structure Machine.Lasting (P : Machine → Prop) : Prop where
  cycle : ∀ m, P m → P m.cycle.1
  record : ∀ m e, P m → P (m.record e)

namespace Machine.Lasting
variable {P : Machine → Prop} (hP : Lasting P) {m : Machine} (hm : P m)
include hP hm

theorem of_cycle {m' : Machine} {r : Except Stop Instruction} (hc : m.cycle = (m', r)) : P m' := by
  have hcycle := hP.cycle m hm
  rwa [hc] at hcycle

theorem run (fuel : Nat) : P (m.run fuel).1 :=
  run_induction hP.cycle (fun m e _ => hP.record m e) hm fuel

theorem next (s : Stepper) : P (s.next m).machine := by
  have hadvance : P (s.advance m).machine := by
    unfold Stepper.advance
    split
    · exact hm
    · split
      · next hc => exact hP.of_cycle hm hc
      · next hc => split <;> exact hP.of_cycle hm hc
  unfold Stepper.next
  split
  · exact hm
  · exact hadvance
  · split
    · exact hm
    · exact hadvance

end Machine.Lasting

theorem Machine.Lasting.call {P : Machine → Prop} (hP : Lasting P) {q : Pool} (hm : P q.machine)
    (c : Pool.Call) : P (q.call c).1.machine := by
  cases c with
  | run fuel => exact hP.run hm fuel
  | make reach => exact hm
  | next i =>
    cases hs : q.steppers[i]? with
    | none => rwa [Pool.call_next_none hs]
    | some s =>
      rw [Pool.call_next hs]
      exact hP.next hm s

/-- Whatever is asked of a machine and its steppers, a lasting property of the machine lasts. -/
theorem Machine.Lasting.reachable {P : Machine → Prop} (hP : Lasting P) {m : Machine} (hm : P m) {q : Pool}
    (hq : q.Reachable m) : P q.machine := by
  obtain ⟨calls, rfl⟩ := hq
  refine Calls.after_induction (P := fun q : Pool => P q.machine) ?_ hm calls
  exact fun q c hq => hP.call hq c

end Brainfuck
