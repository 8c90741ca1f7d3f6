import Brainfuck.Proofs.Job

/-! Front ends. The command line, the debugger and the dry run agree on every job. -/
namespace Brainfuck

namespace Job
open CommandLine Debugger
variable {j : Job} {reach historyLimit : Int} {f : Fault} {m : Machine}

/-- How the front ends stand to each other, given what a command line for the job reports in some number of
cycles. They come to an end together. A session is refused when the command line complains of its
configuration or its program, and then only; but a session looks at the program before the tape, and where the
tape has no room the command line does not get as far as the program. Otherwise both write the same and end
in the same way. Without a limit a dry run with a cap that is high enough counts the steps. -/
structure Agrees (j : Job) (report : ℕ → Report) (reach historyLimit : Int) : Prop where
  ends : (∃ fuel, (report fuel).exit ≠ .error .unfinished) ↔
    ∃ fuel, ∀ s, j.debug reach historyLimit fuel ≠ .ok (s, .error .unfinished)
  refused : (∃ f, Session.start (j.setup reach historyLimit) = .error f ∧ f.isMachine = true) ↔
    (∃ fuel b k message, (k = .invalidConfiguration ∨ k = .invalidProgram) ∧
        report fuel = .failure b k message) ∨
      j.program.validate ≠ .ok () ∧ ∃ f, (f.kind = .overflow ∨ f.kind = .outOfMemory) ∧
        Tape.blank j.settings.layout j.room = .error f ∧ ∀ fuel, report fuel = ⟨"", "", .error (.fault f)⟩
  halts : ∀ b, (∃ fuel, (report fuel).exit = .ok 0 ∧ (report fuel).output = b) ↔
    ∃ fuel s xs, j.debug reach historyLimit fuel = .ok (s, .ok xs) ∧ s.current.output = some b
  raises : (¬ ∃ f, Session.start (j.setup reach historyLimit) = .error f ∧ f.isMachine = true) →
    ∀ k message b, (∃ fuel, report fuel = .failure b k message) ↔
      ∃ fuel s f, j.debug reach historyLimit fuel = .ok (s, .error (.fault f)) ∧ f.kind = k ∧
        f.message = message ∧ s.machine.sink.text = b
  counts : j.maxSteps = none → ∀ fuel s y, j.debug reach historyLimit fuel = .ok (s, y) →
    y ≠ .error .unfinished → ∀ cap : ℕ, s.machine.steps ≤ cap →
      ∃ d, Api.DryRun.of j.program (j.setup reach historyLimit) (.ok (cap : Int)) = .ok d ∧
        d.total = s.machine.steps ∧ (d.capped = true ↔ cap ≤ s.machine.steps)

section Refused
variable {report : ℕ → Report}

theorem debug_of_start_error (hs : Session.start (j.setup reach historyLimit) = .error f) (fuel : ℕ) :
    j.debug reach historyLimit fuel = .error f := by
  rw [debug, hs]
  rfl

theorem agrees_of_complaint (b message : String) {k : Fault.Kind}
    (hs : Session.start (j.setup reach historyLimit) = .error f) (hf : f.isMachine = true)
    (hk : k = .invalidConfiguration ∨ k = .invalidProgram)
    (hreport : ∀ fuel, report fuel = .failure b k message) : j.Agrees report reach historyLimit := by
  have hdebug := debug_of_start_error hs
  constructor
  · refine iff_of_true ⟨0, ?_⟩ ⟨0, ?_⟩
    · simp [hreport, Report.failure]
    · simp [hdebug]
  · exact iff_of_true ⟨f, hs, hf⟩ (Or.inl ⟨0, b, k, message, hk, hreport 0⟩)
  · intro b'
    simp [hreport, Report.failure, hdebug]
  · intro hnone
    exact absurd ⟨f, hs, hf⟩ hnone
  · intro _ fuel s y hd
    simp [hdebug] at hd

theorem agrees_of_escape {g : Fault} (hs : Session.start (j.setup reach historyLimit) = .error f)
    (hf : f.isMachine = true ↔ j.program.validate ≠ .ok ())
    (hg : g.kind = .overflow ∨ g.kind = .outOfMemory) (ht : Tape.blank j.settings.layout j.room = .error g)
    (hreport : ∀ fuel, report fuel = ⟨"", "", .error (.fault g)⟩) : j.Agrees report reach historyLimit := by
  have hdebug := debug_of_start_error hs
  constructor
  · refine iff_of_true ⟨0, ?_⟩ ⟨0, ?_⟩
    · simp [hreport]
    · simp [hdebug]
  · constructor
    · rintro ⟨f', hs', hf'⟩
      obtain rfl := Except.error.inj (hs.symm.trans hs')
      exact Or.inr ⟨hf.mp hf', g, hg, ht, hreport⟩
    · rintro (⟨fuel, b, k, message, -, hfailure⟩ | ⟨hv, -⟩)
      · simp [hreport, Report.failure] at hfailure
      · exact ⟨f, hs, hf.mpr hv⟩
  · intro b
    simp [hreport, hdebug]
  · intro _ k message b
    simp [hreport, Report.failure, hdebug]
  · intro _ fuel s y hd
    simp [hdebug] at hd

end Refused

section Agrees
variable (files : Files) (piped : List UInt8) {arguments : List String}
  (hr : Interpreter.grammar.read {} arguments = .ok (.settings j.settings)) (reach historyLimit : Int)
include hr

/-- What comes of a machine that is not built. -/
theorem agrees_of_fault {g : Fault} (hm : j.machine = .error g)
    (hs : Session.start (j.setup reach historyLimit) = .error f)
    (hf : f.kind = .invalidProgram ∧ j.program.validate ≠ .ok () ∨ f = g ∧ j.program.validate = .ok ()) :
    j.Agrees (fun fuel => Interpreter.run fuel files piped arguments j.room) reach historyLimit := by
  have hreport := run_of_fault files piped hr hm
  have hmachine : ∀ k, f.kind = k → f.isMachine = k.isMachine := by
    rintro k rfl
    rfl
  by_cases hk : g.kind = .invalidConfiguration
  · have hg : g.isMachine = true := by
      rw [Fault.isMachine, hk]
      rfl
    refine agrees_of_complaint "" g.message hs ?_ (Or.inl hk) ?_
    · obtain ⟨hprogram, -⟩ | ⟨rfl, -⟩ := hf
      · exact hmachine _ hprogram
      · exact hg
    · intro fuel
      rw [hreport, Interpreter.silent_of_isMachine hg]
  · have hroom : g.kind = .overflow ∨ g.kind = .outOfMemory := (machine_kind hm).resolve_left hk
    have hg : g.isMachine = false := by
      obtain hroom | hroom := hroom
      · rw [Fault.isMachine, hroom]
        rfl
      · rw [Fault.isMachine, hroom]
        rfl
    refine agrees_of_escape hs ?_ hroom (blank_of_machine_error hm hk) ?_
    · obtain ⟨hprogram, hv⟩ | ⟨rfl, hv⟩ := hf
      · exact iff_of_true (hmachine _ hprogram) hv
      · simp [hg, hv]
    · intro fuel
      rw [hreport, Interpreter.silent_of_not_isMachine hg]
      intro hend
      rw [hend] at hroom
      simp at hroom

theorem agrees_of_ok (hv : j.program.validate = .ok ()) (hm : j.machine = .ok m) :
    j.Agrees (fun fuel => Interpreter.run fuel files piped arguments j.room) reach historyLimit := by
  have hreport := run_of_ok files piped hr hm
  have hstart := start_of_ok hv hm reach historyLimit
  have hown : ∀ fuel f, (m.run fuel).2 = .error (.fault f) → f.isMachine = true :=
    fun fuel f => run_fault_isMachine hv hm
  constructor
  · simp only [hreport, ne_eq, Interpreter.silent_exit_unfinished_iff]
    exact exists_finished_iff hv hm
  · refine iff_of_false (by simp [hstart]) ?_
    rintro (⟨fuel, b, k, message, hk, hfailure⟩ | ⟨hinvalid, -⟩)
    · rw [hreport, Interpreter.silent_eq_failure_iff (hown fuel)] at hfailure
      obtain ⟨f, hf, rfl, -⟩ := hfailure
      obtain hrun | hrun := run_fault_kind hv hm hf <;> simp [hrun] at hk
    · exact hinvalid hv
  · intro b
    simp only [hreport, Interpreter.silent_exit_ok_iff, Interpreter.silent_output]
    exact exists_halted_iff hv hm b
  · intro _ k message b
    simp only [hreport, Interpreter.silent_eq_failure_iff (hown _)]
    constructor
    · rintro ⟨fuel, f, hf, rfl, rfl, hb⟩
      obtain ⟨fuel', s, hd, htext⟩ := (exists_fault_iff hv hm f b).mp ⟨fuel, hf, hb⟩
      exact ⟨fuel', s, f, hd, rfl, rfl, htext⟩
    · rintro ⟨fuel, s, f, hd, rfl, rfl, hb⟩
      obtain ⟨fuel', hf, htext⟩ := (exists_fault_iff hv hm f b).mpr ⟨fuel, s, hd, hb⟩
      exact ⟨fuel', f, hf, rfl, rfl, htext⟩
  · intro hnone fuel s y hd hy cap hcap
    exact dryRun_of_debug hv hm hnone hd hy hcap

/-- What comes of a machine that is built for an invalid program. -/
theorem agrees_of_invalid (hv : j.program.validate = .error f) (hm : j.machine = .ok m) :
    j.Agrees (fun fuel => Interpreter.run fuel files piped arguments j.room) reach historyLimit := by
  have hk := Program.validate_kind hv
  have hf : f.isMachine = true := by
    rw [Fault.isMachine, hk]
    rfl
  have hs := start_of_invalid hv reach historyLimit
  refine agrees_of_complaint m.sink.text f.message hs hf (Or.inr hk) ?_
  intro fuel
  have hinvalid : m.program.validate = .error f := by
    obtain ⟨tape, limit, -, -, hstart⟩ := Setup.machine_ok hm
    obtain ⟨rfl, -⟩ := Machine.start_ok hstart
    exact hv
  rw [run_of_ok files piped hr hm, Machine.run_of_invalid hinvalid, Interpreter.silent_of_isMachine hf]

theorem front_ends_agree :
    j.Agrees (fun fuel => Interpreter.run fuel files piped arguments j.room) reach historyLimit := by
  cases hv : j.program.validate with
  | error f =>
    cases hm : j.machine with
    | error g =>
      have hs := start_of_invalid hv reach historyLimit
      exact agrees_of_fault files piped hr reach historyLimit hm hs (Or.inl ⟨Program.validate_kind hv, by simp [hv]⟩)
    | ok m => exact agrees_of_invalid files piped hr reach historyLimit hv hm
  | ok u =>
    cases hm : j.machine with
    | error f =>
      have hs := start_of_fault hv hm reach historyLimit
      exact agrees_of_fault files piped hr reach historyLimit hm hs (Or.inr ⟨rfl, hv⟩)
    | ok m => exact agrees_of_ok files piped hr reach historyLimit hv hm

end Agrees

/-- One cell is counted up and written. -/
def countedUp : Job where
  code := "+."
  input := ""
  size := 1
  room := .upTo 1

/-- A session of this job shows what the command line writes. -/
theorem front_ends_agree_counted_up :
    Interpreter.grammar.read {} ["-e", "+.", "--input", "", "--memory-size", "1"] =
        .ok (.settings countedUp.settings) ∧
      ∃ fuel s xs, countedUp.debug 10 200 fuel = .ok (s, .ok xs) ∧ s.current.output = some "\x01" := by
  have hr : Interpreter.grammar.read {} ["-e", "+.", "--input", "", "--memory-size", "1"] =
      .ok (.settings countedUp.settings) := by
    delta Grammar.read Grammar.readFrom
    rfl
  have hagrees := front_ends_agree .none [] hr 10 200
  refine ⟨hr, (hagrees.halts "\x01").mp ⟨2, ?_⟩⟩
  rw [run_eq_report .none [] hr]
  exact ⟨rfl, rfl⟩

/-- A bracket without a partner, and more cells than can be counted. -/
def unmatchedWithoutRoom : Job where
  code := "["
  input := ""
  size := 9223372036854775808

/-- A session refuses the program, and the command line does not get that far. -/
theorem refused_apart :
    Interpreter.grammar.read {} ["-e", "[", "--input", "", "--memory-size", "9223372036854775808"] =
        .ok (.settings unmatchedWithoutRoom.settings) ∧
      ¬ ((∃ f, Session.start (unmatchedWithoutRoom.setup 10 200) = .error f ∧ f.isMachine = true) ↔
        ∃ fuel b k message, (k = .invalidConfiguration ∨ k = .invalidProgram) ∧
          Interpreter.run fuel .none []
              ["-e", "[", "--input", "", "--memory-size", "9223372036854775808"] =
            .failure b k message) := by
  have hr : Interpreter.grammar.read {} ["-e", "[", "--input", "", "--memory-size", "9223372036854775808"] =
      .ok (.settings unmatchedWithoutRoom.settings) := by
    delta Grammar.read Grammar.readFrom
    rfl
  refine ⟨hr, ?_⟩
  intro h
  obtain ⟨fuel, b, k, message, -, hfailure⟩ := h.mp ⟨.unmatchedOpen 0, rfl, rfl⟩
  have hm : unmatchedWithoutRoom.machine = .error .tooManyCells := rfl
  have hescape := (run_of_fault .none [] hr hm fuel).symm.trans hfailure
  rw [Interpreter.silent_of_not_isMachine rfl (by decide)] at hescape
  simp [Report.failure] at hescape

end Job

end Brainfuck
