import Mathlib.Data.List.Induction
import Brainfuck.Proofs.Alike

/-! Fidelity. All sessions of one machine go along one trace, and where they stop does not depend on how
much of it they show and keep. -/
namespace Brainfuck.Debugger.Session
variable {s t : Session}

section Start
variable {setup : Setup} {m : Machine}

/-- The sessions that calls and restarts lead to. -/
inductive Reachable (setup : Setup) : Session → Prop where
  | start {s : Session} (h : Session.start setup = .ok s) : Reachable setup s
  | call {s : Session} (h : Reachable setup s) (c : Call) : Reachable setup (s.call c).1
  | restart {s : Session} (h : Reachable setup s) : Reachable setup s.restart

/-- A session right behind its start or a restart. -/
def Begun (setup : Setup) (s : Session) : Prop :=
  Session.start setup = .ok s ∨ ∃ t, Reachable setup t ∧ s = t.restart

structure SameConfiguration (s t : Session) : Prop where
  initial : t.initial = s.initial
  reach : t.reach = s.reach
  historyLimit : t.historyLimit = s.historyLimit

theorem SameConfiguration.trans {u : Session} (h : SameConfiguration s t) (h' : SameConfiguration t u) :
    SameConfiguration s u :=
  ⟨h'.initial.trans h.initial, h'.reach.trans h.reach, h'.historyLimit.trans h.historyLimit⟩

structure Moves (s t : Session) : Prop extends SameConfiguration s t where
  breakpoints : t.breakpoints = s.breakpoints

theorem Moves.refl (s : Session) : Moves s s :=
  ⟨⟨rfl, rfl, rfl⟩, rfl⟩

theorem Moves.trans {u : Session} (h : Moves s t) (h' : Moves t u) : Moves s u :=
  ⟨h.toSameConfiguration.trans h'.toSameConfiguration, h'.breakpoints.trans h.breakpoints⟩

theorem step_moves (s : Session) : Moves s s.step.1 := by
  unfold Session.step
  split
  · exact .refl s
  · dsimp only
    split
    all_goals exact ⟨⟨rfl, rfl, rfl⟩, rfl⟩

theorem forward_moves (n : Nat) (shown : List Snapshot) (s : Session) : Moves s (forward n shown s).1 := by
  induction n generalizing s shown with
  | zero => exact .refl s
  | succ n ih =>
    have hstep := s.step_moves
    unfold Session.forward
    generalize s.step = r at hstep
    obtain ⟨s', e | o | x⟩ := r
    · exact hstep
    · exact hstep
    · dsimp only at hstep ⊢
      split
      · exact hstep
      · split
        · exact ⟨⟨hstep.initial, hstep.reach, hstep.historyLimit⟩, hstep.breakpoints⟩
        · exact hstep.trans (ih _ s')

theorem stepForward_moves (s : Session) (count : Int) : Moves s (s.stepForward count).1 := by
  unfold Session.stepForward
  split
  · exact .refl s
  · have hforward := forward_moves count.toNat [] { s with hit := none }
    exact ⟨⟨hforward.initial, hforward.reach, hforward.historyLimit⟩, hforward.breakpoints⟩

theorem runFrom_moves (bounded : Bool) (n : Nat) (shown : List Snapshot) (s : Session) :
    Moves s (runFrom bounded n shown s).1 := by
  induction n generalizing s shown with
  | zero => exact .refl s
  | succ n ih =>
    have hstep := s.stepForward_moves 1
    unfold Session.runFrom
    generalize s.stepForward 1 = r at hstep
    obtain ⟨s', e | _ | ⟨x, xs⟩⟩ := r
    · exact hstep
    · exact hstep
    · dsimp only at hstep ⊢
      split
      · exact hstep
      · exact hstep.trans (ih _ s')

theorem runUntilBreak_moves (fuel : Nat) (s : Session) (limit : Option Int) :
    Moves s (s.runUntilBreak fuel limit).1 := by
  cases limit with
  | none => exact runFrom_moves false fuel [] s
  | some limit => exact runFrom_moves true limit.toNat [] s

theorem call_sameConfiguration (s : Session) (c : Call) : SameConfiguration s (s.call c).1 := by
  cases c with
  | step count => exact (s.stepForward_moves count).toSameConfiguration
  | run fuel limit => exact (runUntilBreak_moves fuel s limit).toSameConfiguration
  | add p => exact ⟨rfl, rfl, rfl⟩
  | clear => exact ⟨rfl, rfl, rfl⟩
  | remove p =>
    simp only [Session.call, removeBreakpoint]
    split
    · exact ⟨rfl, rfl, rfl⟩
    · exact ⟨rfl, rfl, rfl⟩

theorem start_ok (h : Session.start setup = .ok s) :
    (Program.ofSource setup.code).validate = .ok () ∧
      ∃ m reach limit, setup.machine (.ofSource setup.code) = .ok m ∧ setup.reach = .ok reach ∧
        setup.historyLimit = .ok limit ∧ s = begin reach limit m {} := by
  simp only [Session.start, bind, Except.bind, pure, Except.pure] at h
  split at h
  · cases h
  · next hv =>
    split at h
    · cases h
    · next m hm =>
      split at h
      · cases h
      · next reach hr =>
        split at h
        · cases h
        · next limit hl => exact ⟨hv, m, reach, limit, hm, hr, hl, (Except.ok.inj h).symm⟩

/-- Every session keeps the program, the machine and the views of its setup. -/
theorem Reachable.configured (h : Reachable setup s) :
    (Program.ofSource setup.code).validate = .ok () ∧
      setup.machine (.ofSource setup.code) = .ok s.initial ∧ setup.reach = .ok s.reach ∧
      setup.historyLimit = .ok s.historyLimit := by
  induction h with
  | start h =>
    obtain ⟨hv, m, reach, limit, hm, hr, hl, rfl⟩ := start_ok h
    exact ⟨hv, hm, hr, hl⟩
  | @call s h c ih =>
    obtain ⟨hinitial, hreach, hlimit⟩ := s.call_sameConfiguration c
    rw [hinitial, hreach, hlimit]
    exact ih
  | restart h ih => exact ih

/-- A session begins with the machine of its setup and the breakpoints that it has. -/
theorem Begun.eq_begin (h : Begun setup s) :
    (Program.ofSource setup.code).validate = .ok () ∧
      ∃ m reach limit, setup.machine (.ofSource setup.code) = .ok m ∧ setup.reach = .ok reach ∧
        setup.historyLimit = .ok limit ∧ s = begin reach limit m s.breakpoints := by
  obtain h | ⟨t, ht, rfl⟩ := h
  · obtain ⟨hv, m, reach, limit, hm, hr, hl, rfl⟩ := start_ok h
    exact ⟨hv, m, reach, limit, hm, hr, hl, rfl⟩
  · obtain ⟨hv, hm, hr, hl⟩ := ht.configured
    exact ⟨hv, _, _, _, hm, hr, hl, rfl⟩

end Start

/-- How many states behind the first one a session has come. -/
def progress (s : Session) : Nat :=
  s.machine.steps.toNat + if s.finished ∧ s.machine.halted then 1 else 0

section Course
variable {m : Machine} {reach limit : Int} {k : Nat} {failure : Option Fault}

theorem Tracks.progress_eq (hm : m.steps = 0) (h : Tracks m reach limit s k failure) :
    s.progress = k := by
  unfold progress
  cases h.status with
  | running hf hp hk hx =>
    have hsteps := Machine.after_steps hk
    rw [if_neg (by simp [hf])]
    omega
  | @ended n hf hk hn hhalted hx =>
    have hsteps := Machine.after_steps hn
    rw [if_pos ⟨hf, hhalted⟩]
    omega
  | failed hf hk hhalted he =>
    have hsteps := Machine.after_steps hk
    obtain ⟨hpointer, hsame⟩ := Machine.cycle_error_counters he
    have hprogram := (Machine.SameSettings.of_cycle he).program
    have hon : s.machine.halted = false := by
      rw [← hhalted, Machine.halted, Machine.halted, hpointer, hprogram]
    rw [if_neg (by simp [hon])]
    omega

/-- A fault has been raised by the last call or by one in front of it. -/
theorem raised_snoc_iff (s : Session) (calls : List Call) (c : Call) (f : Fault) :
    (∃ d, (d, .error (.fault f)) ∈ s.answers (calls ++ [c])) ↔
      (∃ d, (d, .error (.fault f)) ∈ s.answers calls) ∨
        ((s.after calls).call c).2 = .error (.fault f) := by
  rw [answers_snoc]
  constructor
  · rintro ⟨d, hd⟩
    obtain hd | hd := List.mem_append.mp hd
    · exact Or.inl ⟨d, hd⟩
    · exact Or.inr (congrArg Prod.snd (List.mem_singleton.mp hd)).symm
  · rintro (⟨d, hd⟩ | hlast)
    · exact ⟨d, List.mem_append_left _ hd⟩
    · rw [← hlast]
      exact ⟨c, List.mem_append_right _ List.mem_cons_self⟩

/-- Behind all calls a session tracks the trace, and it has failed if and only if a call has. -/
theorem Tracks.after (hm : m.Endless) (hsteps : m.steps = 0) (h : Tracks m reach limit s 0 none)
    (calls : List Call) :
    ∃ failure, Tracks m reach limit (s.after calls) (s.after calls).progress failure ∧
      ∀ f, (∃ c, (c, .error (.fault f)) ∈ s.answers calls) ↔ failure = some f := by
  induction calls using List.reverseRecOn with
  | nil =>
    have hprogress := h.progress_eq hsteps
    rw [← hprogress] at h
    refine ⟨none, h, ?_⟩
    intro f
    constructor
    · rintro ⟨c, hc⟩
      cases hc
    · intro hf
      cases hf
  | append_singleton calls c ih =>
    obtain ⟨failure, ht, hfailure⟩ := ih
    have hcall := ht.call hm c
    have hraised := s.raised_snoc_iff calls c
    rw [after_snoc]
    generalize (s.after calls).call c = r at hcall hraised
    cases hcall with
    | returns hj ht =>
      rw [ht.progress_eq hsteps]
      refine ⟨failure, ht, ?_⟩
      intro f
      rw [hraised, hfailure]
      simp
    | cutOff hj ht hb =>
      rw [ht.progress_eq hsteps]
      refine ⟨failure, ht, ?_⟩
      intro f
      rw [hraised, hfailure]
      simp
    | @fails s' j xs f hj ht hnone =>
      rw [ht.progress_eq hsteps]
      refine ⟨some f, ht, ?_⟩
      intro f'
      rw [hraised, hfailure, hnone]
      simp

/-- Where a session stands behind some calls. It is at the element `k` of the trace of `m`, it keeps the
latest elements up to there, and it is finished when this is the last one or when the fault behind it has
been raised. -/
structure Stands (m : Machine) (reach limit : Int) (s : Session) (calls : List Call) (k : Nat) : Prop where
  reached : (m.states reach k).length = k + 1
  current : (m.states reach k)[k]? = some (s.after calls).current
  history : (s.after calls).history.toList = (m.states reach k).drop (k + 1 - limit.toNat)
  finished : (s.after calls).finished = true ↔
    (0 < k ∧ (s.after calls).current.command = none) ∨
      ∃ c f, (c, .error (.fault f)) ∈ s.answers calls
  raised : ∀ c f, (c, .error (.fault f)) ∈ s.answers calls → m.FailsAt k f

/-- What a call shows that leads from the element `i` of the trace to the element `j`: all elements behind
the one and up to the other, or the fault behind the latter. Only a run without a limit can go on forever. -/
structure Leads (m : Machine) (reach : Int) (i j : Nat) (c : Call) (y : Except Stop (List Snapshot)) :
    Prop where
  le : i ≤ j
  shown : ∀ xs, y = .ok xs → xs = (m.states reach j).drop (i + 1)
  raised : ∀ f, y = .error (.fault f) → m.FailsAt j f
  returns : y = .error .unfinished → ∃ fuel, c = .run fuel none

theorem Tracks.failsAt {f : Fault} (h : Tracks m reach limit s k (some f)) : m.FailsAt k f := by
  cases h.status with
  | failed hf hk hm he => exact ⟨_, _, hk, hm, he⟩

theorem stands (hm : m.Endless) (hsteps : m.steps = 0) (h : Tracks m reach limit s 0 none)
    (calls : List Call) : Stands m reach limit s calls (s.after calls).progress := by
  obtain ⟨failure, ht, hfailure⟩ := h.after hm hsteps calls
  refine ⟨ht.length, ht.current, ?_, ?_, ?_⟩
  · have hkept := ht.history
    rwa [kept, ht.length] at hkept
  · have hraised : (∃ c f, (c, .error (.fault f)) ∈ s.answers calls) ↔ ∃ f, failure = some f := by
      constructor
      · rintro ⟨c, f, hc⟩
        exact ⟨f, (hfailure f).mp ⟨c, hc⟩⟩
      · rintro ⟨f, hf⟩
        obtain ⟨c, hc⟩ := (hfailure f).mpr hf
        exact ⟨c, f, hc⟩
    rw [hraised]
    cases ht.status with
    | running hf hp hk hx =>
      rw [hf]
      constructor
      · intro h
        cases h
      · rintro (⟨hpos, hnone⟩ | ⟨f, ⟨⟩⟩)
        obtain hzero | hsome := hx
        · omega
        · exact absurd hnone hsome
    | ended hf hk hn hhalted hx => exact ⟨fun _ => Or.inl ⟨by omega, hx⟩, fun _ => hf⟩
    | @failed m₁ f hf hk hhalted he => exact ⟨fun _ => Or.inr ⟨f, rfl⟩, fun _ => hf⟩
  · intro c f hc
    rw [(hfailure f).mp ⟨c, hc⟩] at ht
    exact ht.failsAt

theorem leads (hm : m.Endless) (hsteps : m.steps = 0) (h : Tracks m reach limit s k failure) (c : Call) :
    Leads m reach k (s.call c).1.progress c (s.call c).2 := by
  have hcall := h.call hm c
  have hle : ∀ {j : Nat} {s' : Session} {xs : List Snapshot} {o : Option Fault},
      m.states reach j = m.states reach k ++ xs → Tracks m reach limit s' j o → k ≤ j := by
    intro j s' xs o hj ht
    have hlength := congrArg List.length hj
    rw [ht.length, List.length_append, h.length] at hlength
    omega
  generalize hb : c.bounded = bounded at hcall
  generalize s.call c = r at hcall
  cases hcall with
  | returns hj ht =>
    rw [ht.progress_eq hsteps]
    refine ⟨hle hj ht, ?_, nofun, nofun⟩
    rintro xs ⟨⟩
    rw [hj, ← h.length, List.drop_left, List.nil_append]
  | fails hj ht hnone =>
    rw [ht.progress_eq hsteps]
    refine ⟨hle hj ht, nofun, ?_, nofun⟩
    rintro f ⟨⟩
    exact ht.failsAt
  | cutOff hj ht hcut =>
    rw [ht.progress_eq hsteps]
    refine ⟨hle hj ht, nofun, nofun, ?_⟩
    intro _
    rw [hcut] at hb
    cases c with
    | run fuel bound =>
      cases bound with
      | none => exact ⟨fuel, rfl⟩
      | some bound => cases hb
    | _ => cases hb

end Course

theorem Alike.progress_eq (h : Alike s t) : s.progress = t.progress := by
  rw [progress, progress, h.machine, h.finished]

/-- A session with room for two states that may take two steps of three. -/
def twoOfThree : Setup where
  code := "+>+"
  reach := .ok 1
  maxSteps := .ok (some 2)
  historyLimit := .ok 2
  size := .ok 3

def twoOfThreeMachine : Machine where
  program := .ofSource "+>+"
  tape := ⟨0, 255, 0, #[0, 0, 0]⟩
  input := ⟨[], .repeats (.integer 0)⟩
  sink := .empty .buffer
  maxSteps := some 2

end Brainfuck.Debugger.Session
