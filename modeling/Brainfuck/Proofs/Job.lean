import Brainfuck.Proofs.Completion
import Brainfuck.Proofs.DryRun
import Brainfuck.Proofs.Fidelity
import Brainfuck.Proofs.Report

/-! Jobs: what all front ends are given. The command line and a session build the same machine for a job, and
bring it to the same end. -/
namespace Brainfuck

def Machine.Guise.streamed : Guise where
  kind k := if k = .row then .row else .stream
  kind_row k := by cases k <;> simp

/-- What all front ends are given: a program and its input, the dimensions of the tape, a limit, and the room of
the host. -/
structure Job where
  code : String
  input : String
  size : Int := 30000
  minimum : Int := 0
  maximum : Int := 255
  maxSteps : Option Int := none
  room : Room := .all

namespace Job
open CommandLine Debugger

def settings (j : Job) : Interpreter.Settings where
  code := some j.code
  input := some j.input
  size := .ok j.size
  minimum := .ok j.minimum
  maximum := .ok j.maximum
  maxSteps := .ok j.maxSteps

def program (j : Job) : Program :=
  .ofSource j.code

def setup (j : Job) (reach historyLimit : Int) : Setup where
  code := j.code
  input := Input.codePoints j.input
  reach := .ok reach
  maxSteps := .ok j.maxSteps
  historyLimit := .ok historyLimit
  size := .ok j.size
  minimum := .ok j.minimum
  maximum := .ok j.maximum
  room := j.room

/-- A new session of a job, run to its end. -/
def debug (j : Job) (reach historyLimit : Int) (fuel : ℕ) :
    Except Fault (Session × Except Stop (List Snapshot)) :=
  (Session.start (j.setup reach historyLimit)).map fun s => s.runUntilBreak fuel none

variable {j : Job} {reach historyLimit : Int} {f : Fault} {m : Machine}

/-- The machine of a job, which does not depend on any view. -/
def machine (j : Job) : Except Fault Machine :=
  (j.setup 0 0).machine j.program

theorem setup_machine (j : Job) (reach historyLimit : Int) :
    (j.setup reach historyLimit).machine j.program = j.machine := rfl

theorem machine_kind (h : j.machine = .error f) :
    f.kind = .invalidConfiguration ∨ f.kind = .overflow ∨ f.kind = .outOfMemory := by
  unfold machine Setup.machine at h
  simp only [bind, Except.bind] at h
  split at h
  · next ht =>
    obtain rfl := Except.error.inj h
    exact Tape.blank_kind ht
  · exact Or.inl (Machine.start_kind h)

/-- Where it is not a tape or a limit that is refused, there is no room for the tape. -/
theorem blank_of_machine_error (h : j.machine = .error f) (hk : f.kind ≠ .invalidConfiguration) :
    Tape.blank j.settings.layout j.room = .error f := by
  unfold machine Setup.machine at h
  simp only [bind, Except.bind] at h
  split at h
  · next ht =>
    obtain rfl := Except.error.inj h
    exact ht
  · exact absurd (Machine.start_kind h) hk

theorem input_integral (j : Job) : ∀ v ∈ Input.codePoints j.input, ∃ n, v = .integer n :=
  Input.codePoints_integral j.input

theorem machine_endless (hv : j.program.validate = .ok ()) (hm : j.machine = .ok m) : m.Endless := by
  have hinput : ∀ v ∈ (j.setup 0 0).input, ∃ n, v = .integer n := j.input_integral
  exact Setup.machine_endless hinput hv hm

section Start

theorem start_of_invalid (hv : j.program.validate = .error f) (reach historyLimit : Int) :
    Session.start (j.setup reach historyLimit) = .error f := by
  have hcode : Program.ofSource (j.setup reach historyLimit).code = j.program := rfl
  simp only [Session.start, hcode, hv, bind, Except.bind]

theorem start_of_fault (hv : j.program.validate = .ok ()) (hm : j.machine = .error f)
    (reach historyLimit : Int) : Session.start (j.setup reach historyLimit) = .error f := by
  have hcode : Program.ofSource (j.setup reach historyLimit).code = j.program := rfl
  simp only [Session.start, hcode, hv, setup_machine, hm, bind, Except.bind]

theorem start_of_ok (hv : j.program.validate = .ok ()) (hm : j.machine = .ok m)
    (reach historyLimit : Int) :
    Session.start (j.setup reach historyLimit) = .ok (.begin reach historyLimit m {}) := by
  have hcode : Program.ofSource (j.setup reach historyLimit).code = j.program := rfl
  simp only [Session.start, hcode, hv, setup_machine, hm, bind, Except.bind]
  rfl

end Start

section Course
variable (files : Files) (piped : List UInt8)

/-- The command line builds the machine of the job, but for where its output goes. -/
theorem prepare_settings (j : Job) :
    Interpreter.prepare files piped j.settings j.room = ([], j.machine.map (·.inGuise .streamed)) := by
  have hlayout : (j.setup 0 0).layout = j.settings.layout := rfl
  have hroom : (j.setup 0 0).room = j.room := rfl
  have hlimit : (j.setup 0 0).maxSteps = .ok j.maxSteps := rfl
  simp only [Interpreter.prepare, machine, Setup.machine, hlayout, hroom, hlimit, bind, Except.bind]
  cases Tape.blank j.settings.layout j.room with
  | error f => rfl
  | ok tape =>
    show ([], Machine.start j.program tape _ (.empty .stream) j.maxSteps) = _
    unfold Machine.start
    cases j.maxSteps with
    | none => rfl
    | some limit =>
      dsimp only
      split
      · rfl
      · rfl

theorem course_of_fault (hm : j.machine = .error f) (fuel : ℕ) :
    Interpreter.course fuel files piped j.settings j.room = ⟨[], "", .error (.fault f)⟩ := by
  simp only [Interpreter.course, prepare_settings, hm, Except.map]

theorem course_of_ok (hm : j.machine = .ok m) (fuel : ℕ) :
    Interpreter.course fuel files piped j.settings j.room =
      ⟨(m.run fuel).1.journal.toList, (m.run fuel).1.sink.text, (m.run fuel).2⟩ := by
  have hrun : (m.inGuise .streamed).run fuel = Machine.Guise.dress .streamed (m.run fuel) :=
    Machine.run_inGuise (Machine.Guise.unnoticed_of_limit rfl _ _)
  have hcheck : j.settings.check = false := rfl
  have hjournal : ((m.run fuel).1.inGuise .streamed).journal = (m.run fuel).1.journal := by
    simp [Machine.inGuise, Machine.Guise.streamed]
  simp only [Interpreter.course, prepare_settings, hm, Except.map, hcheck, hrun, Machine.Guise.dress,
    hjournal]
  rfl

end Course

section CommandLine
variable (files : Files) (piped : List UInt8) {arguments : List String}
  (hr : Interpreter.grammar.read {} arguments = .ok (.settings j.settings))
include hr

theorem run_eq_report (fuel : ℕ) :
    Interpreter.run fuel files piped arguments j.room =
      (Interpreter.course fuel files piped j.settings j.room).report Level.warning.rank := by
  simp only [Interpreter.run, hr]
  rfl

theorem run_of_fault (hm : j.machine = .error f) (fuel : ℕ) :
    Interpreter.run fuel files piped arguments j.room = Interpreter.silent "" (.error (.fault f)) := by
  rw [run_eq_report files piped hr, course_of_fault files piped hm]
  rfl

theorem run_of_ok (hm : j.machine = .ok m) (fuel : ℕ) :
    Interpreter.run fuel files piped arguments j.room =
      Interpreter.silent (m.run fuel).1.sink.text (m.run fuel).2 := by
  have hquiet : m.Quiet := by
    obtain ⟨tape, limit, -, -, hstart⟩ := Setup.machine_ok hm
    obtain ⟨rfl, -⟩ := Machine.start_ok hstart
    simp [Machine.Quiet]
  rw [run_eq_report files piped hr, course_of_ok files piped hm, Interpreter.report_eq_silent]
  intro e he
  exact hquiet.run fuel e (Array.mem_toList_iff.mp he)

end CommandLine

section Ends
variable {n fuel : ℕ} {m' : Machine} {s : Session} {r : Except Stop Unit} {e : Stop} {b : String}
  {y : Except Stop (List Snapshot)} {xs : List Snapshot}
  (hv : j.program.validate = .ok ()) (hm : j.machine = .ok m)
include hv hm

theorem debug_of_ok (reach historyLimit : Int) (fuel : ℕ) :
    j.debug reach historyLimit fuel =
      .ok (Session.runFrom false fuel [] (.begin reach historyLimit m {})) := by
  rw [debug, start_of_ok hv hm]
  rfl

/-- A session that is not cut off comes to the end of the cycles, and its last state shows all output. -/
theorem ends_of_debug (hd : j.debug reach historyLimit fuel = .ok (s, y)) (hy : y ≠ .error .unfinished) :
    ∃ n, m.Ends n s.machine (y.map fun _ => ()) ∧
      (y.map (fun _ => ()) = .ok () → s.current.output = some s.machine.sink.text) := by
  rw [debug_of_ok hv hm] at hd
  have hroams := Session.begin_roams reach historyLimit (machine_endless hv hm).valid
  obtain ⟨n, hn, hrests⟩ := hroams.ends_of_runFrom (Except.ok.inj hd) hy
  refine ⟨n, hn, ?_⟩
  intro hok
  have hbuffer : s.machine.sink.kind = .buffer := by
    obtain ⟨tape, limit, -, -, hstart⟩ := Setup.machine_ok hm
    obtain ⟨rfl, -⟩ := Machine.start_ok hstart
    exact hn.sameSettings.kind
  have houtput : s.current.output = s.machine.sink.bufferText? := by
    rw [hrests.current hok]
    rfl
  rw [houtput, Sink.bufferText?, if_pos hbuffer]

theorem exists_debug_iff (hr : r ≠ .error .unfinished) (b : String) :
    (∃ fuel s y, j.debug reach historyLimit fuel = .ok (s, y) ∧ y.map (fun _ => ()) = r ∧
        s.machine.sink.text = b) ↔ ∃ n m', m.Ends n m' r ∧ m'.sink.text = b := by
  constructor
  · rintro ⟨fuel, s, y, hd, rfl, hb⟩
    have hy : y ≠ .error .unfinished := by
      rintro rfl
      exact hr rfl
    obtain ⟨n, hn, -⟩ := ends_of_debug hv hm hd hy
    exact ⟨n, _, hn, hb⟩
  · rintro ⟨n, m', hn, hb⟩
    have hroams := Session.begin_roams reach historyLimit (machine_endless hv hm).valid
    obtain ⟨s, y, hrun, hy, hrests⟩ := hroams.runFrom_of_ends hn (Nat.lt_succ_self _) []
    refine ⟨n + 2, s, y, ?_, hy, ?_⟩
    · rw [debug_of_ok hv hm, hrun]
    · rw [hrests.machine, hb]

theorem exists_run_iff (hr : r ≠ .error .unfinished) (b : String) :
    (∃ fuel, (m.run fuel).2 = r ∧ (m.run fuel).1.sink.text = b) ↔
      ∃ n m', m.Ends n m' r ∧ m'.sink.text = b := by
  have hvalid := (machine_endless hv hm).valid
  have htext : ∀ {m₁ m₂ : Machine}, m₁.bare = m₂.bare → m₁.sink.text = m₂.sink.text := by
    intro m₁ m₂ hbare
    have hsink : m₁.bare.sink = m₂.bare.sink := congrArg Machine.sink hbare
    exact congrArg Sink.text hsink
  constructor
  · rintro ⟨fuel, rfl, rfl⟩
    obtain ⟨n, m', hn, hbare⟩ := Machine.ends_of_run hvalid (Prod.ext rfl rfl) hr
    exact ⟨n, m', hn, htext hbare⟩
  · rintro ⟨n, m', hn, rfl⟩
    obtain ⟨m₁, hrun, hbare⟩ := Machine.run_of_ends hvalid hn
    refine ⟨n + 1, ?_, ?_⟩
    · rw [hrun]
    · rw [hrun, htext hbare]

/-- A run and a session end alike, behind the same output. -/
theorem exists_run_iff_exists_debug (hr : r ≠ .error .unfinished) (b : String) :
    (∃ fuel, (m.run fuel).2 = r ∧ (m.run fuel).1.sink.text = b) ↔
      ∃ fuel s y, j.debug reach historyLimit fuel = .ok (s, y) ∧ y.map (fun _ => ()) = r ∧
        s.machine.sink.text = b :=
  (exists_run_iff hv hm hr b).trans (exists_debug_iff hv hm hr b).symm

/-- They come to an end together, -/
theorem exists_finished_iff :
    (∃ fuel, (m.run fuel).2 ≠ .error .unfinished) ↔
      ∃ fuel, ∀ s, j.debug reach historyLimit fuel ≠ .ok (s, .error .unfinished) := by
  constructor
  · rintro ⟨fuel, hfinished⟩
    obtain ⟨fuel', s, y, hd, hy, -⟩ := (exists_run_iff_exists_debug hv hm hfinished _).mp ⟨fuel, rfl, rfl⟩
    refine ⟨fuel', ?_⟩
    intro s' hs'
    obtain ⟨-, rfl⟩ := Prod.mk.inj (Except.ok.inj (hd.symm.trans hs'))
    exact hfinished hy.symm
  · rintro ⟨fuel, hfinished⟩
    obtain ⟨s, y, hd⟩ : ∃ s y, j.debug reach historyLimit fuel = .ok (s, y) :=
      ⟨_, _, debug_of_ok hv hm reach historyLimit fuel⟩
    have hy : y.map (fun _ => ()) ≠ .error .unfinished := by
      cases y with
      | ok xs => simp [Except.map]
      | error e =>
        rintro ⟨⟩
        exact hfinished s hd
    obtain ⟨fuel', hrun, -⟩ := (exists_run_iff_exists_debug hv hm hy _).mpr ⟨fuel, s, y, hd, rfl, rfl⟩
    exact ⟨fuel', hrun ▸ hy⟩

/-- halt together, -/
theorem exists_halted_iff (b : String) :
    (∃ fuel, (m.run fuel).2 = .ok () ∧ (m.run fuel).1.sink.text = b) ↔
      ∃ fuel s xs, j.debug reach historyLimit fuel = .ok (s, .ok xs) ∧ s.current.output = some b := by
  rw [exists_run_iff_exists_debug hv hm (by simp) b]
  constructor
  · rintro ⟨fuel, s, y, hd, hy, hb⟩
    cases y with
    | error e => cases hy
    | ok xs =>
      obtain ⟨n, -, houtput⟩ := ends_of_debug hv hm hd (by simp)
      exact ⟨fuel, s, xs, hd, by rw [houtput hy, hb]⟩
  · rintro ⟨fuel, s, xs, hd, hb⟩
    obtain ⟨n, -, houtput⟩ := ends_of_debug hv hm hd (by simp)
    exact ⟨fuel, s, _, hd, rfl, Option.some.inj ((houtput rfl).symm.trans hb)⟩

/-- and fail together. -/
theorem exists_fault_iff (f : Fault) (b : String) :
    (∃ fuel, (m.run fuel).2 = .error (.fault f) ∧ (m.run fuel).1.sink.text = b) ↔
      ∃ fuel s, j.debug reach historyLimit fuel = .ok (s, .error (.fault f)) ∧ s.machine.sink.text = b := by
  rw [exists_run_iff_exists_debug hv hm (by simp) b]
  constructor
  · rintro ⟨fuel, s, y, hd, hy, hb⟩
    cases y with
    | ok xs => cases hy
    | error e =>
      cases hy
      exact ⟨fuel, s, hd, hb⟩
  · rintro ⟨fuel, s, hd, hb⟩
    exact ⟨fuel, s, _, hd, rfl, hb⟩

/-- A dry run counts the steps of a session, if its cap is high enough. -/
theorem dryRun_of_debug (hnone : j.maxSteps = none) (hd : j.debug reach historyLimit fuel = .ok (s, y))
    (hy : y ≠ .error .unfinished) {cap : ℕ} (hcap : s.machine.steps ≤ cap) :
    ∃ d, Api.DryRun.of j.program (j.setup reach historyLimit) (.ok (cap : Int)) = .ok d ∧
      d.total = s.machine.steps ∧ (d.capped = true ↔ cap ≤ s.machine.steps) := by
  obtain ⟨n, hn, -⟩ := ends_of_debug hv hm hd hy
  have hsteps : s.machine.steps = n := by
    rw [hn.steps, Setup.machine_steps hm, Int.zero_add]
  rw [hsteps] at hcap ⊢
  have hunlimited : ((j.setup reach historyLimit).withLimit none).machine j.program = .ok m := by
    rw [← hm, machine, setup, setup, Setup.withLimit, hnone]
    rfl
  have hle : n ≤ cap := by omega
  obtain ⟨d, hdry, htotal, hcapped⟩ := Api.DryRun.of_completes j.input_integral hv hunlimited hn.completes cap
  refine ⟨d, hdry, ?_, ?_⟩
  · exact htotal n (min_eq_left (by exact_mod_cast hle))
  · rw [hcapped]
    exact_mod_cast Iff.rfl

theorem run_fault_kind (hf : (m.run fuel).2 = .error (.fault f)) :
    f.kind = .stepLimitExceeded ∨ f.kind = .valueOutOfRange := by
  have hendless := machine_endless hv hm
  have hrun : m.run fuel = ((m.run fuel).1, .error (.fault f)) := Prod.ext rfl hf
  obtain ⟨n, m', hn, -⟩ := Machine.ends_of_run hendless.valid hrun (by simp)
  obtain ⟨h, -⟩ | ⟨v, h⟩ := hendless.ends_fault hn
  · obtain rfl := Stop.fault.inj h
    exact Or.inl rfl
  · obtain rfl := Stop.fault.inj h
    exact Or.inr rfl

/-- The failures of a run are the machine's own. -/
theorem run_fault_isMachine (hf : (m.run fuel).2 = .error (.fault f)) : f.isMachine = true := by
  obtain hk | hk := run_fault_kind hv hm hf
  · rw [Fault.isMachine, hk]
    rfl
  · rw [Fault.isMachine, hk]
    rfl

end Ends

end Job

end Brainfuck
