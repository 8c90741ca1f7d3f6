import Brainfuck.Debugger.Session
import Brainfuck.Proofs.Calls
import Brainfuck.Proofs.Safety

/-! Debugger sessions. A session goes along the trace of its machine, whatever is asked of it. -/
namespace Brainfuck

namespace Machine
variable {m m₁ m₂ : Machine} {k : Nat} {e : Stop}

/-- A safe machine with a checked program and an input that goes on forever, as sessions have it. -/
structure Endless (m : Machine) : Prop where
  safe : m.Safe
  valid : m.program.validate = .ok ()
  ending : m.input.ending = .repeats (.integer m.tape.default)

/-- Such a machine fails only at the step limit or at a cell that is no byte. -/
theorem Endless.cycle_fault (h : m.Endless) (hk : m.after k = some m₁) (hm : m₁.halted = false)
    (he : m₁.cycle = (m₂, .error e)) :
    (e = .fault .stepLimit ∧ m₂.limitReached = true) ∨ ∃ v, e = .fault (.notAByte v) := by
  have hsettings := after_sameSettings hk
  have hcycle := hsettings.trans (.of_cycle he)
  obtain ⟨-, hblocked⟩ := (h.safe.after h.valid hk).of_cycle_error (hsettings.validate h.valid) hm he
  cases hblocked with
  | limit hl => exact Or.inl ⟨rfl, hl⟩
  | output hc hv hbyte => exact Or.inr ⟨_, rfl⟩
  | input hc hwithin =>
    have hdefault : m.tape.minimum ≤ m.tape.default ∧ m.tape.default ≤ m.tape.maximum :=
      h.safe.workspace.tape.default_mem
    rw [hcycle.ending, h.ending, hcycle.minimum, hcycle.maximum, Ending.within, if_pos hdefault] at hwithin
    cases hwithin

/-- These are failures of its own. -/
theorem Endless.cycle_error (h : m.Endless) (hk : m.after k = some m₁) (hm : m₁.halted = false)
    (he : m₁.cycle = (m₂, .error e)) : ∃ f, e = .fault f ∧ f.isMachine = true := by
  obtain ⟨rfl, -⟩ | ⟨v, rfl⟩ := h.cycle_fault hk hm he
  · exact ⟨_, rfl, rfl⟩
  · exact ⟨_, rfl, rfl⟩

theorem Endless.ends_fault {n : Nat} (h : m.Endless) (hn : m.Ends n m₂ (.error e)) :
    (e = .fault .stepLimit ∧ m₂.limitReached = true) ∨ ∃ v, e = .fault (.notAByte v) := by
  cases hn with
  | fails hk hm he => exact h.cycle_fault hk hm he

def FailsAt (m : Machine) (k : Nat) (f : Fault) : Prop :=
  ∃ m₁ m₂, m.after k = some m₁ ∧ m₁.halted = false ∧ m₁.cycle = (m₂, .error (.fault f))

end Machine

namespace Debugger

theorem Setup.machine_ok {setup : Setup} {program : Program} {m : Machine}
    (h : setup.machine program = .ok m) :
    ∃ tape limit, Tape.blank setup.layout setup.room = .ok tape ∧ setup.maxSteps = .ok limit ∧
      Machine.start program tape (Input.ofValues setup.input (some (.integer tape.default)))
        (.empty .buffer) limit = .ok m := by
  simp only [machine, bind, Except.bind] at h
  split at h
  · cases h
  · next tape ht =>
    split at h
    · cases h
    · next limit hlimit => exact ⟨tape, limit, ht, hlimit, h⟩

theorem Setup.machine_steps {setup : Setup} {program : Program} {m : Machine}
    (h : setup.machine program = .ok m) : m.steps = 0 := by
  obtain ⟨tape, limit, -, -, hstart⟩ := machine_ok h
  obtain ⟨rfl, -⟩ := Machine.start_ok hstart
  rfl

theorem Setup.machine_endless {setup : Setup} {program : Program} {m : Machine}
    (hi : ∀ v ∈ setup.input, ∃ n, v = .integer n) (hv : program.validate = .ok ())
    (h : setup.machine program = .ok m) : m.Endless := by
  obtain ⟨tape, limit, ht, -, hstart⟩ := machine_ok h
  have hinput : (Input.ofValues setup.input (some (.integer tape.default))).Integral := by
    refine ⟨hi, ?_⟩
    rintro v ⟨⟩
    exact ⟨_, rfl⟩
  have hsafe := Machine.Safe.of_start (Tape.blank_valid ht) hinput hstart
  obtain ⟨rfl, -⟩ := Machine.start_ok hstart
  exact ⟨hsafe, hv, rfl⟩

namespace Session

/-- The states that are kept of some states: the latest ones. -/
def kept (limit : Int) (xs : List Snapshot) : List Snapshot :=
  xs.drop (xs.length - limit.toNat)

theorem remember_toList {limit : Int} {history : Array Snapshot} {xs : List Snapshot}
    (h : history.toList = kept limit xs) (x : Snapshot) :
    (remember limit history x).toList = kept limit (xs ++ [x]) := by
  have hsize : history.size = xs.length - (xs.length - limit.toNat) := by
    rw [← Array.length_toList, h, kept, List.length_drop]
  unfold remember
  dsimp only
  split
  · next hlt =>
    rw [Array.size_push] at hlt
    have hdrop : (xs ++ [x]).length - limit.toNat = (xs.length - limit.toNat) + 1 := by
      rw [List.length_append, List.length_singleton]
      omega
    have hextract : ((history.push x).extract 1 (history.push x).size).toList =
        (history.toList ++ [x]).drop 1 := by
      rw [Array.toList_extract, Array.toList_push, List.extract_eq_take_drop, List.take_of_length_le]
      simp
    rw [hextract, h, kept, kept, hdrop, ← List.drop_append_of_le_length (Nat.sub_le _ _), List.drop_drop]
  · next hle =>
    rw [Array.size_push] at hle
    have hdrop : (xs ++ [x]).length - limit.toNat = xs.length - limit.toNat := by
      rw [List.length_append, List.length_singleton]
      omega
    rw [kept, hdrop, Array.toList_push, h, kept, List.drop_append_of_le_length (Nat.sub_le _ _)]

/-- How a session stands to the machine `m` of its start. It is on the way, behind `k` cycles of the machine;
or it has come to the end, and the state without an instruction is the last one; or the machine has failed. -/
inductive Status (m : Machine) (k : Nat) (machine : Machine) (phase : Stepper.Phase) (current : Snapshot)
    (finished : Bool) : Option Fault → Prop where
  | running (hf : finished = false) (hp : phase ≠ .spent) (hk : m.after k = some machine)
      (hx : k = 0 ∨ current.command ≠ none) : Status m k machine phase current finished none
  | ended {n : Nat} (hf : finished = true) (hk : k = n + 1) (hn : m.after n = some machine)
      (hm : machine.halted = true) (hx : current.command = none) :
      Status m k machine phase current finished none
  | failed {m₁ : Machine} {f : Fault} (hf : finished = true) (hk : m.after k = some m₁)
      (hm : m₁.halted = false) (he : m₁.cycle = (machine, .error (.fault f))) :
      Status m k machine phase current finished (some f)

/-- A session that is at the element `k` of the trace of `m`, and its history. -/
structure Tracks (m : Machine) (reach limit : Int) (s : Session) (k : Nat) (failure : Option Fault) :
    Prop where
  told : s.stepper.reach = .ok reach
  keeps : s.historyLimit = limit
  length : (m.states reach k).length = k + 1
  current : (m.states reach k)[k]? = some s.current
  history : s.history.toList = kept limit (m.states reach k)
  status : Status m k s.machine s.stepper.phase s.current s.finished failure

theorem begin_tracks (m : Machine) (reach limit : Int) (breakpoints : Breakpoints) :
    Tracks m reach limit (begin reach limit m breakpoints) 0 none where
  told := rfl
  keeps := rfl
  length := rfl
  current := rfl
  history := by
    have hnone : (#[] : Array Snapshot).toList = kept limit [] := by simp [kept]
    exact remember_toList hnone _
  status := .running rfl nofun rfl (Or.inl rfl)

section Step
variable {s : Session} {m' : Machine} {t : Stepper} {x : Snapshot} {f : Fault}

theorem step_of_finished (hf : s.finished = true) : s.step = (s, .ok none) := by
  simp only [step, hf, if_true]

theorem step_of_shown (hf : s.finished = false) (hn : s.stepper.next s.machine = ⟨m', t, .ok x⟩) :
    s.step =
      ({ s with
          machine := m'
          stepper := t
          current := x
          history := remember s.historyLimit s.history x
          finished := x.command.isNone }, .ok (some x)) := by
  simp [step, hf, hn]

theorem step_of_fault (hf : s.finished = false)
    (hn : s.stepper.next s.machine = ⟨m', t, .error (.fault f)⟩) (hfault : f.isMachine = true) :
    s.step = ({ s with machine := m', stepper := t, finished := true }, .error (.fault f)) := by
  unfold step
  rw [if_neg (by simp [hf])]
  simp only [hn]
  split
  · next h => cases h
  · next h =>
    obtain rfl := Stop.fault.inj (Except.error.inj h)
    cases hfault
  · next h =>
    obtain rfl := Stop.fault.inj (Except.error.inj h)
    rw [hfault]
  · next h => cases h

/-- A step that shows something is a step of the stepper. -/
theorem step_some {s' : Session} (h : s.step = (s', .ok (some x))) :
    s.finished = false ∧ s.stepper.next s.machine = ⟨s'.machine, s'.stepper, .ok x⟩ ∧ s'.current = x ∧
      s'.finished = x.command.isNone := by
  unfold step at h
  split at h
  · cases h
  · next hf =>
    rcases hn : s.stepper.next s.machine with ⟨m', t, y⟩
    rw [hn] at h
    dsimp only at h
    split at h
    · cases h
      exact ⟨by simpa using hf, rfl, rfl, rfl⟩
    · cases h
    · cases h
    · cases h

end Step

/-- What can be asked of a session. A run without a limit is cut off when it takes more than `fuel` steps. -/
inductive Call where
  | step (count : Int)
  | run (fuel : Nat) (limit : Option Int)
  | add (p : Int)
  | remove (p : Int)
  | clear

/-- Whether a call comes to an end by itself, wherever it leads. -/
def Call.bounded : Call → Bool
  | run _ none => false
  | _ => true

def call (s : Session) : Call → Session × Except Stop (List Snapshot)
  | .step count => s.stepForward count
  | .run fuel limit => s.runUntilBreak fuel limit
  | .add p => (s.addBreakpoint p, .ok [])
  | .remove p => ((s.removeBreakpoint p).1, .ok [])
  | .clear => (s.clearBreakpoints, .ok [])

abbrev after (s : Session) (calls : List Call) : Session :=
  Calls.after call s calls

abbrev answers (s : Session) (calls : List Call) : List (Call × Except Stop (List Snapshot)) :=
  Calls.answers call s calls

theorem after_snoc (s : Session) (calls : List Call) (c : Call) :
    s.after (calls ++ [c]) = ((s.after calls).call c).1 :=
  Calls.after_append call s calls [c]

theorem answers_snoc (s : Session) (calls : List Call) (c : Call) :
    s.answers (calls ++ [c]) = s.answers calls ++ [(c, ((s.after calls).call c).2)] :=
  Calls.answers_append call s calls [c]

section Tracks
variable {m : Machine} {reach limit : Int} {s : Session} {k j : Nat} {failure : Option Fault}
  {x : Snapshot} {xs ys shown : List Snapshot}

/-- One more state is remembered. -/
theorem Tracks.extend {s' : Session} (h : Tracks m reach limit s k failure)
    (hx : m.states reach (k + 1) = m.states reach k ++ [x]) (ht : s'.stepper.reach = .ok reach)
    (hl : s'.historyLimit = limit) (hc : s'.current = x)
    (hh : s'.history = remember s.historyLimit s.history x) {failure' : Option Fault}
    (hs : Status m (k + 1) s'.machine s'.stepper.phase s'.current s'.finished failure') :
    Tracks m reach limit s' (k + 1) failure' where
  told := ht
  keeps := hl
  length := by rw [hx, List.length_append, h.length, List.length_singleton]
  current := by
    rw [hx, List.getElem?_append_right (Nat.le_of_eq h.length), h.length, Nat.sub_self, hc]
    rfl
  history := by
    rw [hh, h.keeps, hx]
    exact remember_toList h.history x
  status := hs

/-- A step of a session on its way shows the next state of the trace, or fails as the machine does. -/
theorem Tracks.step (hm : m.Endless) (h : Tracks m reach limit s k failure) (hf : s.finished = false) :
    (∃ x, s.step.2 = .ok (some x) ∧ m.states reach (k + 1) = m.states reach k ++ [x] ∧
        Tracks m reach limit s.step.1 (k + 1) failure) ∨
      ∃ f, s.step.2 = .error (.fault f) ∧ failure = none ∧ Tracks m reach limit s.step.1 k (some f) := by
  cases h.status with
  | ended hend => rw [hf] at hend; cases hend
  | failed hend => rw [hf] at hend; cases hend
  | running _ hp hk hx =>
    have hvalid := (Machine.after_sameSettings hk).validate hm.valid
    have hnext := Stepper.next_of_live hp hvalid
    cases hhalted : s.machine.halted with
    | true =>
      rw [Stepper.advance_of_halted h.told hhalted] at hnext
      have hstates := Machine.states_succ_of_halted hk hhalted reach
      rw [step_of_shown hf hnext]
      refine Or.inl ⟨_, rfl, hstates, ?_⟩
      refine h.extend hstates ?_ ?_ ?_ ?_ ?_
      · exact h.told
      · exact h.keeps
      · rfl
      · rfl
      · exact .ended rfl rfl hk hhalted rfl
    | false =>
      rcases hc : s.machine.cycle with ⟨m', e | c⟩
      · -- only failures of the machine finish a session, and the cycle can fail in no other way
        obtain ⟨f, rfl, hfault⟩ := hm.cycle_error hk hhalted hc
        rw [Stepper.advance_of_error hhalted hc] at hnext
        rw [step_of_fault hf hnext hfault]
        refine Or.inr ⟨f, rfl, rfl, ?_⟩
        exact ⟨h.told, h.keeps, h.length, h.current, h.history, .failed rfl hk hhalted hc⟩
      · rw [Stepper.advance_of_ok h.told hc] at hnext
        have hstates := Machine.states_succ_of_ok hk hc reach
        have hk' : m.after (k + 1) = some m' := by rw [Machine.after_add hk, Machine.after_one hc]
        rw [step_of_shown hf hnext]
        refine Or.inl ⟨_, rfl, hstates, ?_⟩
        refine h.extend hstates ?_ ?_ ?_ ?_ ?_
        · exact h.told
        · exact h.keeps
        · rfl
        · rfl
        · exact .running rfl nofun hk' (Or.inr nofun)

/-- What calls do to a session at the element `k`: they go on to some element and show all that they pass,
or pass them and fail, or are cut off if they are not `bounded`. -/
inductive Proceeds (m : Machine) (reach limit : Int) (bounded : Bool) (k : Nat) (failure : Option Fault)
    (shown : List Snapshot) : Session × Except Stop (List Snapshot) → Prop where
  | returns {s : Session} {j : Nat} {xs : List Snapshot} (hj : m.states reach j = m.states reach k ++ xs)
      (ht : Tracks m reach limit s j failure) :
      Proceeds m reach limit bounded k failure shown (s, .ok (shown ++ xs))
  | fails {s : Session} {j : Nat} {xs : List Snapshot} {f : Fault}
      (hj : m.states reach j = m.states reach k ++ xs) (ht : Tracks m reach limit s j (some f))
      (hnone : failure = none) :
      Proceeds m reach limit bounded k failure shown (s, .error (.fault f))
  | cutOff {s : Session} {j : Nat} {xs : List Snapshot} (hj : m.states reach j = m.states reach k ++ xs)
      (ht : Tracks m reach limit s j failure) (hb : bounded = false) :
      Proceeds m reach limit bounded k failure shown (s, .error .unfinished)

/-- What has been shown on the way is shown first. -/
theorem Proceeds.prepend {bounded : Bool} {r : Session × Except Stop (List Snapshot)}
    (hj : m.states reach j = m.states reach k ++ xs)
    (h : Proceeds m reach limit bounded j failure (shown ++ xs) r) :
    Proceeds m reach limit bounded k failure shown r := by
  cases h with
  | returns hj' ht =>
    rw [List.append_assoc]
    exact .returns (by rw [hj', hj, List.append_assoc]) ht
  | fails hj' ht hnone => exact .fails (by rw [hj', hj, List.append_assoc]) ht hnone
  | cutOff hj' ht hb => exact .cutOff (by rw [hj', hj, List.append_assoc]) ht hb

/-- Nothing is passed. -/
theorem Tracks.stays {bounded : Bool} (h : Tracks m reach limit s k failure) :
    Proceeds m reach limit bounded k failure shown (s, .ok shown) := by
  have hreturns : Proceeds m reach limit bounded k failure shown (s, .ok (shown ++ [])) :=
    .returns (List.append_nil _).symm h
  rwa [List.append_nil] at hreturns

theorem Tracks.forward (hm : m.Endless) (h : Tracks m reach limit s k failure) (n : Nat)
    (shown : List Snapshot) :
    Proceeds m reach limit true k failure shown.reverse (forward n shown s) := by
  induction n generalizing s k shown with
  | zero => exact h.stays
  | succ n ih =>
    unfold Session.forward
    cases hf : s.finished with
    | true =>
      rw [step_of_finished hf]
      exact h.stays
    | false =>
      obtain ⟨x, hy, hstates, ht⟩ | ⟨f, hy, hnone, ht⟩ := h.step hm hf
      · rw [show s.step = (s.step.1, .ok (some x)) from Prod.ext rfl hy]
        refine Proceeds.prepend hstates ?_
        rw [← List.reverse_cons]
        dsimp only
        split
        · exact ht.stays
        · split
          · exact Tracks.stays ⟨ht.told, ht.keeps, ht.length, ht.current, ht.history, ht.status⟩
          · exact ih ht (x :: shown)
      · rw [show s.step = (s.step.1, .error (.fault f)) from Prod.ext rfl hy]
        exact .fails (List.append_nil _).symm ht hnone

/-- Breakpoints and where the last one was hit have no part in it. -/
theorem Tracks.marked (h : Tracks m reach limit s k failure) (breakpoints : Breakpoints)
    (hit : Option Int) : Tracks m reach limit { s with breakpoints, hit } k failure :=
  ⟨h.told, h.keeps, h.length, h.current, h.history, h.status⟩

theorem Tracks.stepForward (hm : m.Endless) (h : Tracks m reach limit s k failure) (count : Int) :
    Proceeds m reach limit true k failure [] (s.stepForward count) := by
  unfold Session.stepForward
  split
  · exact h.stays
  · exact (h.marked s.breakpoints none).forward hm count.toNat []

theorem Tracks.runFrom (hm : m.Endless) (h : Tracks m reach limit s k failure) (bounded : Bool) (n : Nat)
    (shown : List Snapshot) :
    Proceeds m reach limit bounded k failure shown.reverse (runFrom bounded n shown s) := by
  induction n generalizing s k shown with
  | zero =>
    cases bounded with
    | true => exact h.stays
    | false => exact .cutOff (List.append_nil _).symm h rfl
  | succ n ih =>
    have hstep := h.stepForward hm 1
    unfold Session.runFrom
    generalize s.stepForward 1 = r at hstep
    cases hstep with
    | fails hj ht hnone => exact .fails hj ht hnone
    | cutOff hj ht hb => cases hb
    | @returns s' j xs hj ht =>
      cases xs with
      | nil =>
        refine Proceeds.prepend hj ?_
        rw [List.append_nil]
        exact ht.stays
      | cons x xs =>
        refine Proceeds.prepend hj ?_
        have hshown : ((x :: xs).reverse ++ shown).reverse = shown.reverse ++ x :: xs := by
          rw [List.reverse_append, List.reverse_reverse]
        rw [← hshown]
        dsimp only [List.nil_append]
        split
        · exact ht.stays
        · exact ih ht _

theorem Tracks.runUntilBreak (hm : m.Endless) (h : Tracks m reach limit s k failure) (fuel : Nat)
    (bound : Option Int) :
    Proceeds m reach limit bound.isSome k failure [] (s.runUntilBreak fuel bound) := by
  cases bound with
  | none => exact h.runFrom hm false fuel []
  | some bound => exact h.runFrom hm true bound.toNat []

/-- Every call goes on along the trace. -/
theorem Tracks.call (hm : m.Endless) (h : Tracks m reach limit s k failure) (c : Call) :
    Proceeds m reach limit c.bounded k failure [] (s.call c) := by
  cases c with
  | step count => exact h.stepForward hm count
  | run fuel bound =>
    cases bound with
    | none => exact h.runUntilBreak hm fuel none
    | some bound => exact h.runUntilBreak hm fuel (some bound)
  | add p => exact (h.marked _ s.hit).stays
  | clear => exact (h.marked _ s.hit).stays
  | remove p =>
    simp only [Session.call, removeBreakpoint]
    split
    · exact (h.marked _ s.hit).stays
    · exact h.stays

end Tracks

end Session

end Debugger

end Brainfuck
