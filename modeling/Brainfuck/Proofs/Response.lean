import Brainfuck.CommandLine.Interpreter
import Brainfuck.Proofs.Completion
import Brainfuck.Proofs.DryRun
import Brainfuck.Proofs.Fidelity
import Brainfuck.Proofs.Termination

/-! Responses. All machines that command lines, sessions and dry runs set up are fed, so that each call of a
session is answered, and those that are not bounded by themselves are bounded by the limit of the machine. -/
namespace Brainfuck

/-- A machine is fed if its input goes on with the default value of its tape. -/
theorem Machine.fed_of_default {m : Machine} {layout : Layout} {room : Room} (ht : Tape.blank layout room = .ok m.tape)
    (hi : m.input.ending = .repeats (.integer m.tape.default)) : m.Fed := by
  have hdefault := (Tape.blank_valid ht).default_mem
  intro v hv
  obtain rfl := Ending.repeats.inj (hi.symm.trans hv)
  simpa [Tape.inRange?, Datum.between?] using hdefault

namespace Debugger

theorem Setup.machine_fed {setup : Setup} {program : Program} {m : Machine}
    (h : setup.machine program = .ok m) : m.Fed := by
  obtain ⟨tape, limit, ht, -, hstart⟩ := machine_ok h
  obtain ⟨rfl, -⟩ := Machine.start_ok hstart
  exact Machine.fed_of_default ht rfl

/-- A dry run is possible wherever a session is, with any cap that is a limit. -/
theorem Setup.exists_machine_withLimit {setup : Setup} {program : Program} {m : Machine} {cap : Int}
    (h : setup.machine program = .ok m) (hcap : 0 ≤ cap) :
    ∃ m', (setup.withLimit (some cap)).machine program = .ok m' := by
  obtain ⟨tape, limit, ht, -, -⟩ := machine_ok h
  simp only [machine, blank_withLimit, ht, bind, Except.bind]
  simp only [withLimit, Machine.start, Int.not_lt.mpr hcap, if_false]
  exact ⟨_, rfl⟩

namespace Session
variable {s s' : Session} {α : Type} {limit : Int} {bounded : Bool}

/-- What becomes of a session on which something is done: its machine keeps its settings, and if the machine was
fed and what is done is `bounded`, there is an answer. -/
structure Answers (s : Session) (bounded : Bool) (r : Session × Except Stop α) : Prop where
  settings : s.machine.SameSettings r.1.machine
  answered : s.machine.Fed → bounded = true → r.2 ≠ .error .unfinished

theorem Answers.ok {x : α} (h : s.machine.SameSettings s'.machine) : Answers s bounded (s', .ok x) :=
  ⟨h, fun _ _ => by simp⟩

theorem Answers.trans {r : Session × Except Stop α} (h : s.machine.SameSettings s'.machine)
    (h' : Answers s' bounded r) : Answers s bounded r :=
  ⟨h.trans h'.settings, fun hfed => h'.answered (hfed.of_sameSettings h)⟩

theorem step_answers (s : Session) : Answers s true s.step := by
  have hsettings := s.stepper.next_sameSettings s.machine
  have hne := s.stepper.next_ne_unfinished (m := s.machine)
  unfold step
  split
  · exact .ok (.refl s.machine)
  · dsimp only
    split
    · exact .ok hsettings
    · exact .ok hsettings
    · exact ⟨hsettings, fun _ _ => by simp⟩
    · next hshown => exact ⟨hsettings, fun hfed _ => absurd hshown (hne hfed)⟩

theorem forward_answers (n : Nat) (shown : List Snapshot) (s : Session) :
    Answers s true (forward n shown s) := by
  induction n generalizing s shown with
  | zero => exact .ok (.refl s.machine)
  | succ n ih =>
    have hstep := s.step_answers
    unfold forward
    generalize s.step = r at hstep
    obtain ⟨s', e | _ | x⟩ := r
    · exact ⟨hstep.settings, fun hfed h => by simpa using hstep.answered hfed h⟩
    · exact .ok hstep.settings
    · dsimp only
      split
      · exact .ok hstep.settings
      · split
        · exact .ok hstep.settings
        · exact .trans hstep.settings (ih _ s')

theorem stepForward_answers (s : Session) (count : Int) : Answers s true (s.stepForward count) := by
  unfold stepForward
  split
  · exact .ok (.refl s.machine)
  · have hforward := forward_answers count.toNat [] { s with hit := none }
    exact ⟨hforward.settings, hforward.answered⟩

theorem runFrom_answers (bounded : Bool) (n : Nat) (shown : List Snapshot) (s : Session) :
    Answers s bounded (runFrom bounded n shown s) := by
  induction n generalizing s shown with
  | zero =>
    refine ⟨.refl s.machine, ?_⟩
    rintro - rfl
    simp [runFrom]
  | succ n ih =>
    have hsingle := s.stepForward_answers 1
    unfold runFrom
    generalize s.stepForward 1 = r at hsingle
    obtain ⟨s', e | _ | ⟨x, xs⟩⟩ := r
    · exact ⟨hsingle.settings, fun hfed _ => by simpa using hsingle.answered hfed rfl⟩
    · exact .ok hsingle.settings
    · dsimp only
      split
      · exact .ok hsingle.settings
      · exact .trans hsingle.settings (ih _ s')

theorem call_answers (s : Session) (c : Call) : Answers s c.bounded (s.call c) := by
  cases c with
  | step count => exact s.stepForward_answers count
  | run fuel limit =>
    cases limit with
    | none => exact runFrom_answers false fuel [] s
    | some limit => exact runFrom_answers true limit.toNat [] s
  | add p => exact .ok (.refl s.machine)
  | remove p =>
    simp only [call, removeBreakpoint]
    split
    · exact .ok (.refl s.machine)
    · exact .ok (.refl s.machine)
  | clear => exact .ok (.refl s.machine)

/-- How many steps of a session are left up to a limit: the cycles of its machine, and one for the end. -/
def left (limit : Int) (s : Session) : Nat :=
  if s.finished then 0 else s.machine.left limit + 1

theorem left_le (limit : Int) (s : Session) : s.left limit ≤ s.machine.left limit + 1 := by
  unfold left
  split
  · exact Nat.zero_le _
  · exact Nat.le_refl _

section Limit
variable (hl : s.machine.maxSteps = some limit)
include hl

/-- A step that shows something is one less to take. -/
theorem step_left {x : Snapshot} (h : s.step = (s', .ok (some x))) : s'.left limit < s.left limit := by
  obtain ⟨hf, hnext, -, hfinished⟩ := step_some h
  have hleft : s.left limit = s.machine.left limit + 1 := by simp [left, hf]
  have hgoes := s.stepper.next_goes s.machine
  rw [hnext] at hgoes
  generalize hm : s'.machine = m' at hgoes
  cases hgoes with
  | spent _ _ hx =>
    have hend : s'.left limit = 0 := by simp [left, hfinished, hx x rfl]
    omega
  | cycles hc _ =>
    obtain rfl := hm
    have hcycle := Machine.left_of_cycle_ok hl hc
    have hle := s'.left_le limit
    omega

theorem stepForward_one_left {x : Snapshot} {xs : List Snapshot} (h : s.stepForward 1 = (s', .ok (x :: xs))) :
    s'.left limit < s.left limit := by
  have hleft : ∀ {t : Session} {y : Snapshot}, step { s with hit := none } = (t, .ok (some y)) →
      t.left limit < s.left limit := fun ht => step_left (s := { s with hit := none }) hl ht
  rw [stepForward_one, forward] at h
  rcases hstep : step { s with hit := none } with ⟨t, e | _ | y⟩
  · rw [hstep] at h
    cases h
  · rw [hstep] at h
    cases h
  · have hlt := hleft hstep
    rw [hstep] at h
    dsimp only at h
    split at h
    · cases h
      exact hlt
    · split at h
      · cases h
        exact hlt
      · cases h
        exact hlt

/-- A run comes to a breakpoint or to the end before the steps that are left are used up, or with them. -/
theorem exists_runFrom (hfed : s.machine.Fed) (shown : List Snapshot) :
    ∃ t y, y ≠ .error .unfinished ∧ ∀ fuel, s.left limit < fuel → runFrom false fuel shown s = (t, y) := by
  induction hk : s.left limit using Nat.strongRecOn generalizing s shown with
  | ind k ih =>
    have hsingle := s.stepForward_answers 1
    have hlt := @stepForward_one_left s
    -- where the run stops behind one call, no more fuel is needed
    have hstop : ∀ t y, y ≠ .error .unfinished → (∀ j, runFrom false (j + 1) shown s = (t, y)) →
        ∃ t y, y ≠ .error .unfinished ∧ ∀ fuel, k < fuel → runFrom false fuel shown s = (t, y) := by
      intro t y hy hrun
      refine ⟨t, y, hy, ?_⟩
      intro fuel hfuel
      obtain ⟨j, rfl⟩ := Nat.exists_eq_add_of_lt hfuel
      exact hrun _
    rcases hstep : s.stepForward 1 with ⟨t, e | _ | ⟨x, xs⟩⟩
    · have hne := hsingle.answered hfed rfl
      rw [hstep] at hne
      refine hstop t (.error e) (by simpa using hne) fun j => ?_
      rw [runFrom, hstep]
    · refine hstop t (.ok shown.reverse) (by simp) fun j => ?_
      rw [runFrom, hstep]
    · cases hhit : t.hit.isSome with
      | true =>
        refine hstop t (.ok ((x :: xs).reverse ++ shown).reverse) (by simp) fun j => ?_
        rw [runFrom, hstep]
        dsimp only
        rw [hhit, if_pos rfl]
      | false =>
        have hsettings := hsingle.settings
        have hleft := hlt hl hstep
        rw [hstep] at hsettings
        obtain ⟨u, y, hy, hrun⟩ := ih (t.left limit) (hk ▸ hleft) (hsettings.maxSteps.trans hl)
          (hfed.of_sameSettings hsettings) ((x :: xs).reverse ++ shown) rfl
        refine ⟨u, y, hy, ?_⟩
        intro fuel hfuel
        obtain ⟨j, rfl⟩ := Nat.exists_eq_add_of_lt hfuel
        rw [runFrom, hstep]
        dsimp only
        rw [hhit, if_neg (by simp)]
        exact hrun _ (by omega)

end Limit

/-- All calls and restarts keep the settings of the machine. -/
theorem Reachable.settings {setup : Setup} (h : Reachable setup s) : s.initial.SameSettings s.machine := by
  induction h with
  | start h =>
    obtain ⟨-, m, reach, limit, -, -, -, rfl⟩ := start_ok h
    exact .refl m
  | @call s _ c ih =>
    rw [(s.call_sameConfiguration c).initial]
    exact ih.trans (s.call_answers c).settings
  | @restart s _ _ => exact .refl s.initial

/-- A session answers every call: those that are bounded by themselves, and under a limit of the machine those
that are not, too, as soon as they may take the steps that are left. -/
structure Responds (setup : Setup) (s : Session) : Prop where
  fed : s.machine.Fed
  answer : ∀ c : Call, c.bounded = true → (s.call c).2 ≠ .error .unfinished
  run : ∀ limit, setup.maxSteps = .ok (some limit) → ∃ t y, y ≠ .error .unfinished ∧
    ∀ fuel, (limit - s.machine.steps).toNat + 1 < fuel → s.runUntilBreak fuel none = (t, y)

theorem Reachable.responds {setup : Setup} (h : Reachable setup s) : Responds setup s := by
  obtain ⟨-, hmachine, -, -⟩ := h.configured
  have hfed : s.machine.Fed := (Setup.machine_fed hmachine).of_sameSettings h.settings
  refine ⟨hfed, fun c hc => (s.call_answers c).answered hfed hc, ?_⟩
  intro limit hlimit
  have hl : s.initial.maxSteps = some limit := Except.ok.inj ((Setup.maxSteps_eq hmachine).symm.trans hlimit)
  obtain ⟨t, y, hy, hrun⟩ := exists_runFrom (h.settings.maxSteps.trans hl) hfed []
  exact ⟨t, y, hy, fun fuel hfuel => hrun fuel (Nat.lt_of_le_of_lt (s.left_le limit) hfuel)⟩

end Session

end Debugger

open Debugger CommandLine Api

/-- The command line feeds its machine, from a given text or from the bytes that are piped in. -/
theorem CommandLine.Interpreter.prepare_fed {files : Files} {piped : List UInt8}
    {settings : Interpreter.Settings} {room : Room} {events : List Event} {m : Machine}
    (h : Interpreter.prepare files piped settings room = (events, .ok m)) : m.Fed := by
  unfold Interpreter.prepare at h
  split at h
  · cases h
  · next tape ht =>
    split at h
    · cases h
    · obtain ⟨-, hstart⟩ := Prod.mk.inj h
      cases hlimit : settings.maxSteps with
      | error f =>
        rw [hlimit] at hstart
        cases hstart
      | ok limit =>
        rw [hlimit] at hstart
        obtain ⟨rfl, -⟩ := Machine.start_ok hstart
        cases hinput : settings.input with
        | none =>
          -- a stream ends, and nothing is repeated
          intro v hv
          simp only [Interpreter.Settings.inputFor, hinput, Input.ofStream] at hv
          cases hv
        | some text =>
          refine Machine.fed_of_default ht ?_
          simp only [Interpreter.Settings.inputFor, hinput]
          rfl

/-- A dry run takes no more cycles than its cap allows. -/
theorem Api.DryRun.of_machine {setup : Setup} {program : Program} {m : Machine} {cap : Int}
    (hm : (setup.withLimit (some cap)).machine program = .ok m) :
    m.EndsWithin cap.toNat ∧ ∃ d, DryRun.of program setup (.ok cap) = .ok d := by
  have hends := (Setup.machine_fed hm).endsWithin (Setup.machine_maxSteps hm)
  have hleft : m.left cap = cap.toNat := by rw [Machine.left, Setup.machine_steps hm, Int.sub_zero]
  rw [hleft] at hends
  refine ⟨hends, ?_⟩
  rcases hrun : m.run (cap.toNat + 1) with ⟨m', r⟩
  by_cases hlimit : r = .error (.fault .stepLimit)
  · subst hlimit
    obtain ⟨d, hd, -⟩ := DryRun.of_stepLimit hm hrun
    exact ⟨d, hd⟩
  · obtain ⟨d, hd, -⟩ := DryRun.of_run hm hrun hlimit
    exact ⟨d, hd⟩

/-- A session that starts has a dry run, which comes to its cap at the latest. -/
theorem Api.DryRun.of_start {setup : Setup} {s : Session} {cap : Int} (hs : Session.start setup = .ok s)
    (hcap : 0 ≤ cap) :
    ∃ m d, (setup.withLimit (some cap)).machine s.initial.program = .ok m ∧
      m.EndsWithin cap.toNat ∧ DryRun.of s.initial.program setup (.ok cap) = .ok d := by
  obtain ⟨-, m, reach, limit, hm, -, -, rfl⟩ := Session.start_ok hs
  obtain ⟨tape, limit', -, -, hstart⟩ := Setup.machine_ok hm
  have hprogram : m.program = .ofSource setup.code := by
    obtain ⟨rfl, -⟩ := Machine.start_ok hstart
    rfl
  obtain ⟨m', hm'⟩ := Setup.exists_machine_withLimit hm hcap
  obtain ⟨hends, d, hd⟩ := DryRun.of_machine hm'
  refine ⟨m', d, ?_, hends, ?_⟩
  · exact hprogram ▸ hm'
  · exact hprogram ▸ hd

/-- Bounded executions end, whatever the program. A fed machine with a limit ends within the steps that are left;
command lines and sessions set up fed machines only; a session answers every call that is bounded, and under a
limit those that are not; and the dry run of a session comes to its cap at the latest. -/
theorem bounded_executions_end :
    (∀ (m : Machine) (limit : Int), m.maxSteps = some limit → m.Fed →
        m.EndsWithin (limit - m.steps).toNat) ∧
      (∀ (files : Files) (piped : List UInt8) (settings : Interpreter.Settings) (room : Room)
          (events : List Event) (m : Machine),
          Interpreter.prepare files piped settings room = (events, .ok m) → m.Fed) ∧
      (∀ (setup : Setup) (program : Program) (m : Machine), setup.machine program = .ok m → m.Fed) ∧
      (∀ (setup : Setup) (s : Session), Session.Reachable setup s → Session.Responds setup s) ∧
      ∀ (setup : Setup) (s : Session) (cap : Int), Session.start setup = .ok s → 0 ≤ cap →
        ∃ m d, (setup.withLimit (some cap)).machine s.initial.program = .ok m ∧
          m.EndsWithin cap.toNat ∧ DryRun.of s.initial.program setup (.ok cap) = .ok d := by
  refine ⟨?_, ?_, ?_, ?_, ?_⟩
  · intro m limit hl hfed
    exact hfed.endsWithin hl
  · intro files piped settings room events m hprepare
    exact Interpreter.prepare_fed hprepare
  · intro setup program m hm
    exact Setup.machine_fed hm
  · intro setup s hs
    exact hs.responds
  · intro setup s cap hs hcap
    exact DryRun.of_start hs hcap

/-- A setup whose program would never leave its loop. -/
def spinning : Setup where
  code := "+[]"
  size := .ok 1
  maxSteps := .ok (some 3)
  room := .upTo 1

theorem bounded_executions_end_spinning :
    (∃ m, spinning.machine (.ofSource "+[]") = .ok m ∧ m.Fed ∧ m.EndsWithin 3) ∧
      (∃ events m, Interpreter.prepare .none [] { code := some "+[]", input := some "", size := .ok 1 }
        (.upTo 1) = (events, .ok m) ∧ m.Fed) ∧
      ∃ s, Session.start spinning = .ok s ∧ Session.Responds spinning s ∧
        ∃ d, DryRun.of s.initial.program spinning (.ok 5) = .ok d := by
  obtain ⟨hends, hprepared, hmade, hresponds, hdry⟩ := bounded_executions_end
  have hfed := hmade spinning (.ofSource "+[]") _ rfl
  refine ⟨⟨_, rfl, hfed, hends _ 3 rfl hfed⟩, ⟨_, _, rfl, ?_⟩, _, rfl, hresponds _ _ (.start rfl), ?_⟩
  · exact hprepared .none [] { code := some "+[]", input := some "", size := .ok 1 } (.upTo 1) _ _ rfl
  · obtain ⟨-, d, -, -, hd⟩ := hdry spinning _ 5 rfl (by decide)
    exact ⟨d, hd⟩

end Brainfuck
