import Brainfuck.Proofs.Failures
import Brainfuck.Proofs.Report
import Brainfuck.Proofs.Service
import Brainfuck.Proofs.Verdict

/-! Judges. Machines, steppers, sessions, the command line and the service all check a program before anything
else comes of it, and pass on what the check says. -/
namespace Brainfuck
variable {f : Fault}

namespace Program
variable {p : Program}

theorem isValid_true_iff : p.isValid = .ok true ↔ p.validate = .ok () := by
  unfold isValid
  cases hv : p.validate with
  | ok u => simp
  | error f => simp [validate_error_kind hv]

theorem isValid_false_iff : p.isValid = .ok false ↔ ∃ f, p.validate = .error f := by
  unfold isValid
  cases hv : p.validate with
  | ok u => simp
  | error f => simp [validate_error_kind hv]

end Program

/-- No cycle fails as a check does. -/
theorem Machine.cycle_ne_invalid {m m' : Machine} (hf : f.kind = .invalidProgram) :
    m.cycle ≠ (m', .error (.fault f)) := by
  intro h
  have hkind := cycle_kind h
  simp [failureKinds, hf] at hkind

/-- A run fails as the check of its program does, and in no other case in this way. -/
theorem Machine.run_invalid_iff (m : Machine) (fuel : Nat) (hf : f.kind = .invalidProgram) :
    (m.run fuel).2 = .error (.fault f) ↔ m.program.validate = .error f := by
  cases hv : m.program.validate with
  | error g => simp [run_of_invalid hv]
  | ok u =>
    refine iff_of_false (fun h => ?_) (by simp)
    have hrun : m.run fuel = ((m.run fuel).1, .error (.fault f)) := Prod.ext rfl h
    obtain ⟨n, m', hends, -⟩ := ends_of_run hv hrun (by simp)
    cases hends with
    | fails _ _ he => exact cycle_ne_invalid hf he

/-- The first step of a stepper fails so as well. -/
theorem Stepper.next_invalid_iff {s : Stepper} {reach : Int} (hs : s.phase = .fresh) (hr : s.reach = .ok reach)
    (m : Machine) (hf : f.kind = .invalidProgram) :
    (s.next m).shown = .error (.fault f) ↔ m.program.validate = .error f := by
  cases hv : m.program.validate with
  | error g => simp [next_of_invalid hs hv]
  | ok u =>
    refine iff_of_false (fun h => ?_) (by simp)
    rw [next_of_live (by simp [hs]) hv] at h
    cases hm : m.halted with
    | true =>
      rw [advance_of_halted hr hm] at h
      cases h
    | false =>
      rcases hc : m.cycle with ⟨m', e | c⟩
      · rw [advance_of_error hm hc] at h
        cases h
        exact Machine.cycle_ne_invalid hf hc
      · rw [advance_of_ok hr hc] at h
        cases h

namespace Debugger

structure Setup.Given (setup : Setup) : Prop where
  reach : ∃ n, setup.reach = .ok n
  maxSteps : ∃ n, setup.maxSteps = .ok n
  historyLimit : ∃ n, setup.historyLimit = .ok n
  size : ∃ n, setup.size = .ok n
  minimum : ∃ n, setup.minimum = .ok n
  maximum : ∃ n, setup.maximum = .ok n

theorem Setup.Given.machine_ne_invalid {setup : Setup} (h : setup.Given) (p : Program)
    (hf : f.kind = .invalidProgram) : setup.machine p ≠ .error f := by
  obtain ⟨-, ⟨limit, hlimit⟩, -, ⟨size, hsize⟩, ⟨minimum, hminimum⟩, maximum, hmaximum⟩ := h
  intro hm
  have hlayout : setup.layout = { size := .ok size, minimum := .ok minimum, maximum := .ok maximum } := by
    simp only [layout, hsize, hminimum, hmaximum]
  simp only [machine, hlayout, hlimit, bind, Except.bind] at hm
  split at hm
  · next hblank =>
    obtain rfl := Except.error.inj hm
    have hkind := Tape.blank_kind hblank
    simp [hf] at hkind
  · have hkind := Machine.start_kind hm
    rw [hf] at hkind
    cases hkind

/-- A session does not start if the check of its program fails, and fails so in no other case. -/
theorem Session.start_invalid_iff {setup : Setup} (h : setup.Given) (hf : f.kind = .invalidProgram) :
    Session.start setup = .error f ↔ (Program.ofSource setup.code).validate = .error f := by
  cases hv : (Program.ofSource setup.code).validate with
  | error g => simp [start, hv, bind, Except.bind]
  | ok u =>
    refine iff_of_false (fun hstart => ?_) (by simp)
    obtain ⟨reach, hreach⟩ := h.reach
    obtain ⟨limit, hlimit⟩ := h.historyLimit
    cases hm : setup.machine (Program.ofSource setup.code) with
    | error g =>
      simp only [start, hv, hm, bind, Except.bind] at hstart
      obtain rfl := Except.error.inj hstart
      exact h.machine_ne_invalid _ hf hm
    | ok m =>
      simp only [start, hv, hm, hreach, hlimit, bind, Except.bind] at hstart
      cases hstart

/-- With the standard settings nothing else is in the way, if there is room for the standard tape. -/
theorem Session.start_ok_iff (source : String) {room : Room} (hroom : 30000 ≤ room.cells) :
    (∃ s, Session.start { code := source, room } = .ok s) ↔ (Program.ofSource source).validate = .ok () := by
  cases hv : (Program.ofSource source).validate with
  | error g => simp [start, hv, bind, Except.bind]
  | ok u =>
    have hlayout : Setup.layout { code := source, room } = {} := rfl
    refine iff_of_true ?_ rfl
    simp only [start, hv, Setup.machine, hlayout, Tape.blank_standard hroom, bind, Except.bind]
    exact ⟨_, rfl⟩

end Debugger

namespace CommandLine.Interpreter

theorem choose_debug {files : Files} {path code : Option String} {p : Program} {loading : List Event}
    (h : Program.choose files path code = .ok (p, loading)) : ∀ e ∈ loading, e.level = .debug := by
  unfold Program.choose at h
  split at h
  · cases h
  · cases h
  · next path =>
    cases hload : Program.load files path with
    | error f =>
      rw [hload] at h
      cases h
    | ok loaded =>
      rw [hload] at h
      cases h
      unfold Program.load at hload
      split at hload
      · cases hload
      · dsimp only at hload
        split at hload
        · cases hload
        · cases hload
          intro e he
          obtain rfl := List.mem_singleton.mp he
          rfl
  · cases h
    simp

/-- If there is room for the standard tape, a check comes to the program. -/
theorem course_of_check {files : Files} {room : Room} {path code : Option String} {p : Program}
    {loading : List Event} (hroom : 30000 ≤ room.cells) (hp : Program.choose files path code = .ok (p, loading))
    (fuel : Nat) (piped : List UInt8) :
    course fuel files piped { source := path, code, check := true } room = checked loading p := by
  have hlayout : Settings.layout { source := path, code, check := true } = {} := rfl
  simp only [course, prepare, hlayout, Tape.blank_standard hroom, hp]
  rfl

theorem silent_checked_ok {p : Program} (hv : p.validate = .ok ()) (loading : List Event) :
    silent (checked loading p).output (checked loading p).ending =
      ⟨s!"OK: {p.size} instructions\n", "", .ok 0⟩ := by
  simp only [checked, hv]
  exact silent_ok

theorem silent_checked_error {p : Program} (hv : p.validate = .error f) (loading : List Event) :
    silent (checked loading p).output (checked loading p).ending =
      .failure "" .invalidProgram f.message := by
  have hkind := Program.validate_error_kind hv
  simp only [checked, hv]
  rw [silent_of_isMachine (by simp [Fault.isMachine, hkind, Fault.Kind.isMachine]), hkind]

/-- A check reports what there is to say about the program that has been chosen. -/
theorem run_check {files : Files} {room : Room} {path code : Option String} {p : Program} {loading : List Event}
    {arguments : List String} (hroom : 30000 ≤ room.cells)
    (hr : grammar.read {} arguments = .ok (.settings { source := path, code, check := true }))
    (hp : Program.choose files path code = .ok (p, loading)) (fuel : Nat) (piped : List UInt8) :
    Interpreter.run fuel files piped arguments room =
      silent (checked loading p).output (checked loading p).ending := by
  have hevents : ∀ e ∈ (checked loading p).events, e.level = .debug := by
    have hloading : (checked loading p).events = loading := by
      unfold checked
      split <;> rfl
    rw [hloading]
    exact choose_debug hp
  have hrun : Interpreter.run fuel files piped arguments room =
      (course fuel files piped { source := path, code, check := true } room).report Level.warning.rank := by
    simp only [Interpreter.run, hr]
    rfl
  rw [hrun, course_of_check hroom hp, report_eq_silent hevents]

end CommandLine.Interpreter

namespace Api

def Response.verdict (p : Program) (valid : Bool) (reason : Json) : Response :=
  ⟨200, .json (.object [
    ("valid", .truth valid),
    ("instruction_count", .integer p.size),
    ("instructions", .text p.text),
    ("error", reason)])⟩

theorem gap?_ofString (s : String) : Text.gap? (Text.Point.ofString s) = none := by
  have hchars : ∀ (cs : List Char) (i : Nat), Text.findGap? i (cs.map .char) = none := by
    intro cs
    induction cs with
    | nil => exact fun _ => rfl
    | cons c cs ih => exact fun i => ih (i + 1)
  exact hchars s.toList 0

theorem ofProgram_ok {p : Program} (hv : p.validate = .ok ()) :
    Response.ofValue 200 (Payload.ofProgram p) = .ok (.verdict p true .null) := by
  simp [Response.ofValue, Payload.ofProgram, hv, Json.gap?, Json.gapInMembers?, Json.Literal.points,
    gap?_ofString, Response.verdict]

theorem ofProgram_error {p : Program} (hv : p.validate = .error f) :
    Response.ofValue 200 (Payload.ofProgram p) = .ok (.verdict p false (.text f.message)) := by
  simp [Response.ofValue, Payload.ofProgram, hv, Json.gap?, Json.gapInMembers?, Json.Literal.points,
    gap?_ofString, Response.verdict]

namespace Service
variable {v : Service} {request : Request} {code : Json.Literal}

theorem answer_validation (hroute : request.route? v.files.isSome = some .validation)
    (hcode : Body.members request.body >>= Body.code = .ok code) (fuel : Nat) :
    v.answer fuel request =
      (v, Response.ofValue 200 (Payload.ofProgram (.ofSource code.characters))) := by
  rw [answer_of_route hroute]
  simp only [serve, hcode]

end Service

end Api

open Debugger CommandLine Api

/-- All judges of the program in a source text come to the verdict of its check, and word it in the same way. Those
that make the standard tape before they judge have room for it. -/
structure JudgedAlike (source : String) : Prop where
  isValid_true : (Program.ofSource source).isValid = .ok true ↔ (Program.ofSource source).validate = .ok ()
  isValid_false : (Program.ofSource source).isValid = .ok false ↔
    ∃ f, (Program.ofSource source).validate = .error f
  run : ∀ (m : Machine) (fuel : Nat) (f : Fault), m.program = .ofSource source → f.kind = .invalidProgram →
    ((m.run fuel).2 = .error (.fault f) ↔ (Program.ofSource source).validate = .error f)
  next : ∀ (m : Machine) (reach : Int) (f : Fault), m.program = .ofSource source → f.kind = .invalidProgram →
    ((Stepper.next { reach := .ok reach } m).shown = .error (.fault f) ↔
      (Program.ofSource source).validate = .error f)
  start : ∀ (setup : Setup) (f : Fault), setup.code = source → setup.Given → f.kind = .invalidProgram →
    (Session.start setup = .error f ↔ (Program.ofSource source).validate = .error f)
  start_standard : ∀ room : Room, 30000 ≤ room.cells →
    ((∃ s, Session.start { code := source, room } = .ok s) ↔ (Program.ofSource source).validate = .ok ())
  check : ∀ (fuel : Nat) (files : Files) (piped : List UInt8) (room : Room) (arguments : List String)
    (path code : Option String) (loading : List Event), 30000 ≤ room.cells →
    Interpreter.grammar.read {} arguments = .ok (.settings { source := path, code, check := true }) →
    Program.choose files path code = .ok (.ofSource source, loading) →
    ((Program.ofSource source).validate = .ok () → Interpreter.run fuel files piped arguments room =
        ⟨s!"OK: {(Program.ofSource source).size} instructions\n", "", .ok 0⟩) ∧
      ∀ f, (Program.ofSource source).validate = .error f →
        Interpreter.run fuel files piped arguments room = .failure "" .invalidProgram f.message
  answer : ∀ (fuel : Nat) (v : Service) (request : Request) (code : Json.Literal),
    request.route? v.files.isSome = some .validation →
    Body.members request.body >>= Body.code = .ok code → code.characters = source →
    ((Program.ofSource source).validate = .ok () →
        v.answer fuel request = (v, .ok (.verdict (.ofSource source) true .null))) ∧
      ∀ f, (Program.ofSource source).validate = .error f →
        v.answer fuel request = (v, .ok (.verdict (.ofSource source) false (.text f.message)))

theorem judgedAlike (source : String) : JudgedAlike source where
  isValid_true := Program.isValid_true_iff
  isValid_false := Program.isValid_false_iff
  run := by
    intro m fuel f hm hf
    rw [m.run_invalid_iff fuel hf, hm]
  next := by
    intro m reach f hm hf
    rw [Stepper.next_invalid_iff rfl rfl m hf, hm]
  start := by
    rintro setup f rfl hgiven hf
    exact Session.start_invalid_iff hgiven hf
  start_standard room hroom := Session.start_ok_iff source hroom
  check := by
    intro fuel files piped room arguments path code loading hroom hr hp
    rw [Interpreter.run_check hroom hr hp]
    exact ⟨fun hv => Interpreter.silent_checked_ok hv loading,
      fun f hv => Interpreter.silent_checked_error hv loading⟩
  answer := by
    rintro fuel v request code hroute hcode rfl
    rw [Service.answer_validation hroute hcode]
    exact ⟨fun hv => by rw [ofProgram_ok hv], fun f hv => by rw [ofProgram_error hv]⟩

/-- The verdict on a source text is the one that the grammar and the counts of its brackets call for, whoever
judges it. -/
theorem judged_rightly (source : String) :
    Verdict (source.toList.filterMap Instruction.ofChar?) (Program.ofSource source).validate ∧
      JudgedAlike source := by
  have hverdict := (Program.ofSource source).validate_rightly
  rw [show (Program.ofSource source).code.toList = source.toList.filterMap Instruction.ofChar? by
    simp [Program.ofSource]] at hverdict
  exact ⟨hverdict, judgedAlike source⟩

/-- A program with a bracket too many. -/
def stray : Program :=
  .ofSource "[ok]]"

def Machine.astray : Machine where
  program := stray
  tape := ⟨0, 255, 0, #[0]⟩
  input := .ofValues [] none
  sink := .empty .buffer

def Api.Request.stray : Request :=
  ⟨"POST", "/api/program/validate", "\x7b\"code\":\"[ok]]\"\x7d".toUTF8.toList⟩

theorem Api.Body.members_stray : members Request.stray.body >>= code = .ok (.whole "[ok]]") := by
  -- refusals cannot be compared, so what is decided is which code there is
  have hcode : (members Request.stray.body >>= code).toOption = some (.whole "[ok]]") := by decide +kernel
  exact ok_of_toOption hcode

/-- All judges find the bracket that is too many. -/
theorem judged_rightly_stray :
    (Machine.astray.run 1).2 = .error (.fault (.unmatchedClose 2)) ∧
      (Stepper.next { reach := .ok 10 } .astray).shown = .error (.fault (.unmatchedClose 2)) ∧
      Session.start { code := "[ok]]" } = .error (.unmatchedClose 2) ∧
      Interpreter.run 0 .none [] ["--check", "--eval", "[ok]]"] =
        .failure "" .invalidProgram "unmatched ']' at instruction 2" ∧
      Service.answer 0 {} .stray =
        ({}, .ok (.verdict stray false (.text "unmatched ']' at instruction 2"))) := by
  obtain ⟨-, hjudged⟩ := judged_rightly "[ok]]"
  have hv : stray.validate = .error (.unmatchedClose 2) := rfl
  have hread : Interpreter.grammar.read {} ["--check", "--eval", "[ok]]"] =
      .ok (.settings { code := some "[ok]]", check := true }) := by
    delta Grammar.read Grammar.readFrom
    rfl
  have hroute : Request.stray.route? false = some .validation := by decide +kernel
  obtain ⟨-, hcheck⟩ := hjudged.check 0 .none [] .all _ none (some "[ok]]") [] (by decide) hread rfl
  obtain ⟨-, hanswer⟩ := hjudged.answer 0 {} .stray _ hroute Api.Body.members_stray rfl
  refine ⟨(hjudged.run .astray 1 _ rfl rfl).mpr hv, (hjudged.next .astray 10 _ rfl rfl).mpr hv, ?_, ?_, ?_⟩
  · exact (hjudged.start _ _ rfl ⟨⟨_, rfl⟩, ⟨_, rfl⟩, ⟨_, rfl⟩, ⟨_, rfl⟩, ⟨_, rfl⟩, _, rfl⟩ rfl).mpr hv
  · exact hcheck (.unmatchedClose 2) hv
  · exact hanswer (.unmatchedClose 2) hv

end Brainfuck
