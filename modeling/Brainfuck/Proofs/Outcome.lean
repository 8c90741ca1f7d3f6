import Brainfuck.Proofs.Bounds
import Brainfuck.Proofs.Budget
import Brainfuck.Proofs.Judges

/-! Outcomes of the command line. A command line is refused by the first of its checks that fails; otherwise its
program is only counted, or it is run, and what is reported says how that ended. -/
namespace Brainfuck

/-- A run that ends has a result. -/
theorem Machine.Terminates.exists_ends {m : Machine} (hv : m.program.validate = .ok ()) (h : m.Terminates) :
    ∃ n m', ∃ result : Except Fault Unit, m.Ends n m' (result.mapError .fault) := by
  obtain ⟨fuel, hfuel⟩ := h
  rcases hrun : m.run fuel with ⟨m₁, r⟩
  rw [hrun] at hfuel
  obtain ⟨n, m', hn, -⟩ := ends_of_run hv hrun hfuel
  cases r with
  | ok u => exact ⟨n, m', .ok (), hn⟩
  | error e =>
    cases e with
    | fault f => exact ⟨n, m', .error f, hn⟩
    | unfinished => exact absurd rfl hfuel

namespace CommandLine

def exitCode : Except Fault Unit → Nat
  | .ok () => 0
  | .error _ => 1

def complaint : Except Fault Unit → String
  | .ok () => ""
  | .error f =>
    if f.kind = .endOfInput then s!"Input error: {f.message}\n" else s!"{f.kind.name}: {f.message}\n"

/-- What a report tells: an output and a result. The complaint is all there is to read unless the log, which
stands in front of it, has the least important events as well. -/
structure Report.Tells (report : Report) (rank : ℕ) (output : String) (result : Except Fault Unit) : Prop where
  output : report.output = output
  exit : report.exit = .ok (exitCode result)
  errors : ∃ log, report.errors = log ++ complaint result ∧ (Level.debug.rank < rank → log = "")

/-- A course with nothing but the least important events tells what it has written and how it has ended. -/
theorem Interpreter.Course.tells {c : Course} {result : Except Fault Unit} (rank : ℕ)
    (hevents : ∀ e ∈ c.events, e.level = Level.debug) (hending : c.ending = result.mapError .fault)
    (hkind : ∀ f, result = .error f → f.isMachine = true ∨ f.kind = .endOfInput) :
    (c.report rank).Tells rank c.output result := by
  have hlog : Level.debug.rank < rank → logText rank c.events = "" := fun hrank => logText_of_rank hrank hevents
  cases result with
  | ok u =>
    have hreport : c.report rank = ⟨c.output, logText rank c.events, .ok 0⟩ := by
      simp only [Course.report, hending, Except.mapError]
    rw [hreport]
    exact ⟨rfl, rfl, _, (String.append_empty).symm, hlog⟩
  | error f =>
    have hreport : c.report rank = ⟨c.output, logText rank c.events ++ complaint (.error f), .ok 1⟩ := by
      simp only [Course.report, hending, Except.mapError, complaint]
      obtain hmachine | hinput := hkind f rfl
      · have hne : f.kind ≠ .endOfInput := by
          intro hkind
          rw [Fault.isMachine, hkind] at hmachine
          cases hmachine
        rw [if_pos hmachine, if_neg hne]
      · have hmachine : ¬ f.isMachine = true := by
          rw [Fault.isMachine, hinput]
          decide
        rw [if_neg hmachine, if_pos hinput, if_pos hinput]
    rw [hreport]
    exact ⟨rfl, rfl, _, rfl, hlog⟩

namespace Interpreter

/-- The options of a command line on which all numbers are given. -/
structure Options where
  source : Option String := none
  code : Option String := none
  input : Option String := none
  size : Int := 30000
  minimum : Int := 0
  maximum : Int := 255
  maxSteps : Option Int := none
  check : Bool := false
  level : String := "WARNING"

namespace Options

def settings (o : Options) : Settings where
  source := o.source
  code := o.code
  input := o.input
  size := .ok o.size
  minimum := .ok o.minimum
  maximum := .ok o.maximum
  maxSteps := .ok o.maxSteps
  check := o.check
  logLevel := .ok o.level

/-- The text of the program, if exactly one is given and can be read. -/
def text? (files : Files) (o : Options) : Option String :=
  match o.source, o.code with
  | some path, none => (files.readText (.ofString path)).toOption
  | none, some code => some code
  | _, _ => none

section Checks

def memoryFailure (o : Options) : Option Fault :=
  if o.size ≤ 0 then some (.invalidSize o.size)
  else if o.maximum < o.minimum then some (.emptyRange o.minimum o.maximum)
  else if 0 < o.minimum ∨ o.maximum < 0 then some (.defaultOutOfRange 0 o.minimum o.maximum)
  else none

def selectionFailure (o : Options) : Option Fault :=
  match o.source, o.code with
  | some _, some _ => some .twoSources
  | none, none => some .noSource
  | _, _ => none

def fileFailure (files : Files) (o : Options) : Option Fault :=
  o.source.bind fun path =>
    match files.readText (.ofString path) with
    | .error d => some (.unreadable path d)
    | .ok _ => none

def limitFailure (o : Options) : Option Fault :=
  o.maxSteps.bind fun n => if n < 0 then some (.negativeLimit n) else none

def programFailure (files : Files) (o : Options) : Option Fault :=
  (o.text? files).bind fun text =>
    match (Program.ofSource text).validate with
    | .error f => some f
    | .ok () => none

/-- The failure of the first check that fails. -/
def failure? (files : Files) (o : Options) : Option Fault :=
  [o.memoryFailure, o.selectionFailure, o.fileFailure files, o.limitFailure, o.programFailure files].findSome? id

/-- Options to which no check objects, and the text of their program. -/
structure Acceptable (files : Files) (o : Options) (text : String) : Prop where
  size : 0 < o.size
  range : o.minimum ≤ 0 ∧ 0 ≤ o.maximum
  source : o.source = none ∧ o.code = some text ∨
    ∃ path, o.source = some path ∧ o.code = none ∧ files.readText (.ofString path) = .ok text
  limit : ∀ n, o.maxSteps = some n → 0 ≤ n
  program : (Program.ofSource text).validate = .ok ()

end Checks

def tape (o : Options) : Tape :=
  ⟨o.minimum, o.maximum, 0, Array.replicate o.size.toNat 0⟩

/-- The machine of a run. It reads the given text and then noughts, or else the bytes that are piped in. -/
def machine (o : Options) (text : String) (piped : List UInt8) : Machine where
  program := .ofSource text
  tape := o.tape
  input := o.input.elim (.ofStream piped) fun given => .ofValues (Input.codePoints given) (some (.integer 0))
  sink := .empty .stream
  maxSteps := o.maxSteps

/-- How a command line with some options is to be reported on at a rank of its log, in some number of cycles and
with some bytes piped in. The report on options to which a check objects is about the first check that does. If
none does, there is a program, which is either counted, in no cycle and whatever is piped in, or run; then the
report shows what has been written up to its end. -/
structure Reported (files : Files) (o : Options) (rank : ℕ) (report : ℕ → List UInt8 → Report) : Prop where
  accepted : o.failure? files = none ↔ ∃ text, o.Acceptable files text
  refused : ∀ f, o.failure? files = some f → ∀ fuel piped, (report fuel piped).Tells rank "" (.error f)
  counted : ∀ text, o.Acceptable files text → o.check = true → ∀ fuel piped,
    (report fuel piped).Tells rank s!"OK: {(Program.ofSource text).size} instructions\n" (.ok ())
  ran : ∀ text piped, o.Acceptable files text → o.check = false → (o.machine text piped).Terminates →
    ∃ n m result, (o.machine text piped).Ends n m (result.mapError .fault) ∧
      ∀ fuel, n < fuel → (report fuel piped).Tells rank m.sink.text result

/-- How a command line with some options is to exit, unless a run of its program never ends: with nought exactly if
no check objects and the run, if there is one, halts. -/
def Exits (files : Files) (o : Options) (report : ℕ → List UInt8 → Report) : Prop :=
  ∀ piped, (∀ text, o.Acceptable files text → o.check = false → (o.machine text piped).Terminates) →
    ∃ n, ∀ fuel, n < fuel → ((report fuel piped).exit = .ok 0 ∨ (report fuel piped).exit = .ok 1) ∧
      ((report fuel piped).exit = .ok 0 ↔
        ∃ text, o.Acceptable files text ∧ (o.check = false → (o.machine text piped).Halts))

variable {files : Files} {o : Options} {piped : List UInt8} {room : Room} {text : String} {f : Fault} {rank fuel : ℕ}

section Memory

theorem blank_of_failure (h : o.memoryFailure = some f) : Tape.blank o.settings.layout room = .error f := by
  have hblank := Tape.blank_eq o.size o.minimum o.maximum room
  unfold memoryFailure at h
  refine hblank.trans ?_
  split_ifs at h with hsize hrange hdefault
  · rw [if_pos hsize, Option.some.inj h]
  · rw [if_neg hsize, if_pos hrange, Option.some.inj h]
  · rw [if_neg hsize, if_neg hrange, if_pos hdefault, Option.some.inj h]

theorem memoryFailure_eq_none_iff : o.memoryFailure = none ↔ 0 < o.size ∧ o.minimum ≤ 0 ∧ 0 ≤ o.maximum := by
  unfold memoryFailure
  split_ifs
  all_goals
    simp only [true_iff, false_iff]
    omega

theorem blank_of_room (h : o.memoryFailure = none) (hroom : o.size ≤ room.cells) :
    Tape.blank o.settings.layout room = .ok o.tape := by
  obtain ⟨hsize, hrange⟩ := memoryFailure_eq_none_iff.mp h
  exact Tape.blank_of_room hsize hrange hroom

end Memory

section Choice
variable (hpath : ∀ path, o.source = some path → '\x00' ∉ path.toList)

theorem choose_of_selectionFailure (h : o.selectionFailure = some f) :
    Program.choose files o.source o.code = .error f := by
  unfold selectionFailure at h
  unfold Program.choose
  split at h
  · next hsource hcode => rw [hsource, hcode, Option.some.inj h]
  · next hsource hcode => rw [hsource, hcode, Option.some.inj h]
  · cases h

/-- Without a failure so far either a text is given or a file is to be read. -/
theorem selectionFailure_eq_none_iff : o.selectionFailure = none ↔
    (∃ text, o.source = none ∧ o.code = some text) ∨ ∃ path, o.source = some path ∧ o.code = none := by
  unfold selectionFailure
  cases o.source with
  | none => cases o.code <;> simp
  | some path => cases o.code <;> simp

include hpath

theorem choose_of_fileFailure (hselection : o.selectionFailure = none) (h : o.fileFailure files = some f) :
    Program.choose files o.source o.code = .error f := by
  obtain ⟨text, hsource, -⟩ | ⟨path, hsource, hcode⟩ := selectionFailure_eq_none_iff.mp hselection
  · rw [fileFailure, hsource] at h
    cases h
  · have hnul : path.toList.contains '\x00' = false := by simpa using hpath path hsource
    rw [fileFailure, hsource, Option.bind_some] at h
    cases hread : files.readText (.ofString path) with
    | ok text =>
      rw [hread] at h
      cases h
    | error d =>
      rw [hread] at h
      obtain rfl := Option.some.inj h
      simp only [Program.choose, hsource, hcode, Program.load, hnul, hread, Except.map, Bool.false_eq_true, if_false]

theorem choose_of_passes (hselection : o.selectionFailure = none) (hfile : o.fileFailure files = none) :
    ∃ text loading, o.text? files = some text ∧
      Program.choose files o.source o.code = .ok (.ofSource text, loading) ∧
        (o.source = none ∧ o.code = some text ∨
          ∃ path, o.source = some path ∧ o.code = none ∧ files.readText (.ofString path) = .ok text) := by
  obtain ⟨text, hsource, hcode⟩ | ⟨path, hsource, hcode⟩ := selectionFailure_eq_none_iff.mp hselection
  · refine ⟨text, [], ?_, ?_, Or.inl ⟨hsource, hcode⟩⟩
    · rw [text?, hsource, hcode]
    · simp only [Program.choose, hsource, hcode]
  · have hnul : path.toList.contains '\x00' = false := by simpa using hpath path hsource
    rw [fileFailure, hsource, Option.bind_some] at hfile
    split at hfile
    · cases hfile
    · next text hread =>
      refine ⟨text, [.loaded (.ofString path) text.length], ?_, ?_, Or.inr ⟨path, hsource, hcode, hread⟩⟩
      · rw [text?, hsource, hcode]
        dsimp only
        rw [hread]
        rfl
      · simp only [Program.choose, hsource, hcode, Program.load, hnul, hread, Except.map, Bool.false_eq_true,
          if_false]

end Choice

section Limit

theorem start_of_limitFailure {text : String} (h : o.limitFailure = some f) (input : Input) (sink : Sink) :
    Machine.start (.ofSource text) o.tape input sink o.maxSteps = .error f := by
  unfold limitFailure at h
  cases hlimit : o.maxSteps with
  | none =>
    rw [hlimit] at h
    cases h
  | some n =>
    rw [hlimit, Option.bind_some] at h
    split at h
    · next hn => simp only [Machine.start, if_pos hn, Option.some.inj h]
    · cases h

theorem limitFailure_eq_none_iff : o.limitFailure = none ↔ ∀ n, o.maxSteps = some n → 0 ≤ n := by
  unfold limitFailure
  cases o.maxSteps with
  | none => simp
  | some n => simp

theorem start_of_passes (h : o.limitFailure = none) (text : String) (piped : List UInt8) :
    Machine.start (.ofSource text) o.tape (o.machine text piped).input (.empty .stream) o.maxSteps =
      .ok (o.machine text piped) := by
  have hlimit := limitFailure_eq_none_iff.mp h
  unfold Machine.start
  cases hmax : o.maxSteps with
  | none => simp only [machine, hmax]
  | some n =>
    have hn := hlimit n hmax
    simp only [machine, hmax]
    rw [if_neg (by omega)]

end Limit

section Acceptable
variable (h : o.Acceptable files text)
include h

theorem Acceptable.text_eq : o.text? files = some text := by
  obtain ⟨hsource, hcode⟩ | ⟨path, hsource, hcode, hread⟩ := h.source
  · rw [text?, hsource, hcode]
  · rw [text?, hsource, hcode]
    dsimp only
    rw [hread]
    rfl

theorem Acceptable.failure_eq_none : o.failure? files = none := by
  have hmemory : o.memoryFailure = none := memoryFailure_eq_none_iff.mpr ⟨h.size, h.range⟩
  have hlimit : o.limitFailure = none := limitFailure_eq_none_iff.mpr h.limit
  have hprogram : o.programFailure files = none := by
    simp only [programFailure, h.text_eq, Option.bind_some, h.program]
  obtain ⟨hsource, hcode⟩ | ⟨path, hsource, hcode, hread⟩ := h.source
  · have hselection : o.selectionFailure = none := by rw [selectionFailure, hsource, hcode]
    have hfile : o.fileFailure files = none := by rw [fileFailure, hsource, Option.bind_none]
    simp [failure?, hmemory, hselection, hfile, hlimit, hprogram]
  · have hselection : o.selectionFailure = none := by rw [selectionFailure, hsource, hcode]
    have hfile : o.fileFailure files = none := by simp only [fileFailure, hsource, Option.bind_some, hread]
    simp [failure?, hmemory, hselection, hfile, hlimit, hprogram]

end Acceptable

theorem failure_isMachine (h : o.failure? files = some f) : f.isMachine = true := by
  obtain ⟨failure, hmem, rfl⟩ := List.exists_of_findSome?_eq_some h
  simp only [List.mem_cons, List.not_mem_nil, or_false] at hmem
  obtain hmemory | hselection | hfile | hlimit | hprogram := hmem
  · unfold memoryFailure at hmemory
    split_ifs at hmemory
    all_goals
      obtain rfl := Option.some.inj hmemory
      rfl
  · unfold selectionFailure at hselection
    split at hselection
    · obtain rfl := Option.some.inj hselection
      rfl
    · obtain rfl := Option.some.inj hselection
      rfl
    · cases hselection
  · obtain ⟨path, -, hread⟩ := Option.bind_eq_some_iff.mp hfile.symm
    split at hread
    · obtain rfl := Option.some.inj hread
      rfl
    · cases hread
  · obtain ⟨n, -, hn⟩ := Option.bind_eq_some_iff.mp hlimit.symm
    split at hn
    · obtain rfl := Option.some.inj hn
      rfl
    · cases hn
  · obtain ⟨text, -, hv⟩ := Option.bind_eq_some_iff.mp hprogram.symm
    split at hv
    · next f hf =>
      obtain rfl := Option.some.inj hv
      rw [Fault.isMachine, Program.validate_kind hf]
      rfl
    · cases hv

section Course
variable (hpath : ∀ path, o.source = some path → '\x00' ∉ path.toList)
  (hroom : o.memoryFailure = none → o.size ≤ room.cells)
include hpath hroom

/-- Behind the first three checks there is a program, and a machine unless the limit is wrong. -/
theorem prepare_of_passes (hmemory : o.memoryFailure = none) (hselection : o.selectionFailure = none)
    (hfile : o.fileFailure files = none) :
    ∃ text loading, o.text? files = some text ∧ (∀ e ∈ loading, e.level = Level.debug) ∧
      (o.source = none ∧ o.code = some text ∨
        ∃ path, o.source = some path ∧ o.code = none ∧ files.readText (.ofString path) = .ok text) ∧
      ∀ piped, prepare files piped o.settings room =
        (loading, Machine.start (.ofSource text) o.tape (o.machine text piped).input (.empty .stream) o.maxSteps) := by
  obtain ⟨text, loading, htext, hchoose, hsource⟩ := choose_of_passes hpath hselection hfile
  refine ⟨text, loading, htext, choose_debug hchoose, hsource, ?_⟩
  intro piped
  have hinput : o.settings.inputFor o.tape piped = (o.machine text piped).input := by
    simp only [Settings.inputFor, settings, machine]
    cases o.input with
    | none => rfl
    | some given => rfl
  have hchosen : Program.choose files o.settings.source o.settings.code = .ok (.ofSource text, loading) := hchoose
  simp only [prepare, blank_of_room hmemory (hroom hmemory), hchosen, hinput]
  rfl

/-- Either one of the first four checks fails, and nothing is prepared, or only the program is left to be checked. -/
theorem prepare_cases (files : Files) :
    (∃ f events, o.failure? files = some f ∧ (∀ e ∈ events, e.level = Level.debug) ∧
        ∀ piped, prepare files piped o.settings room = (events, .error f)) ∨
      ∃ text events, o.failure? files = o.programFailure files ∧ o.text? files = some text ∧
        (∀ e ∈ events, e.level = Level.debug) ∧
          ((Program.ofSource text).validate = .ok () → o.Acceptable files text) ∧
            ∀ piped, prepare files piped o.settings room = (events, .ok (o.machine text piped)) := by
  cases hmemory : o.memoryFailure with
  | some f =>
    refine Or.inl ⟨f, [], by simp [failure?, hmemory], by simp, ?_⟩
    intro piped
    simp only [prepare, blank_of_failure hmemory]
  | none =>
    have hblank := blank_of_room hmemory (hroom hmemory)
    cases hselection : o.selectionFailure with
    | some f =>
      refine Or.inl ⟨f, [], by simp [failure?, hmemory, hselection], by simp, ?_⟩
      intro piped
      have hchoose : Program.choose files o.settings.source o.settings.code = .error f :=
        choose_of_selectionFailure hselection
      simp only [prepare, hblank, hchoose]
    | none =>
      cases hfile : o.fileFailure files with
      | some f =>
        refine Or.inl ⟨f, [], by simp [failure?, hmemory, hselection, hfile], by simp, ?_⟩
        intro piped
        have hchoose : Program.choose files o.settings.source o.settings.code = .error f :=
          choose_of_fileFailure hpath hselection hfile
        simp only [prepare, hblank, hchoose]
      | none =>
        obtain ⟨text, events, htext, hevents, hsource, hprepare⟩ :=
          prepare_of_passes hpath hroom hmemory hselection hfile
        cases hlimit : o.limitFailure with
        | some f =>
          refine Or.inl ⟨f, events, by simp [failure?, hmemory, hselection, hfile, hlimit], hevents, ?_⟩
          intro piped
          rw [hprepare, start_of_limitFailure hlimit]
        | none =>
          obtain ⟨hsize, hrange⟩ := memoryFailure_eq_none_iff.mp hmemory
          have hlimited := limitFailure_eq_none_iff.mp hlimit
          refine Or.inr ⟨text, events, ?_, htext, hevents, fun hv => ⟨hsize, hrange, hsource, hlimited, hv⟩, ?_⟩
          · simp [failure?, hmemory, hselection, hfile, hlimit]
          · intro piped
            rw [hprepare, start_of_passes hlimit]

end Course

section Run

theorem input_integral (o : Options) (text : String) (piped : List UInt8) :
    (o.machine text piped).input.Integral := by
  unfold machine
  cases o.input with
  | none => exact Input.integral_ofStream piped
  | some given =>
    constructor
    · exact Input.codePoints_integral given
    · rintro v ⟨⟩
      exact ⟨0, rfl⟩

variable (h : o.Acceptable files text)
include h

theorem Acceptable.machine_safe (hroom : o.memoryFailure = none → o.size ≤ room.cells) (piped : List UInt8) :
    (o.machine text piped).Safe := by
  have hmemory : o.memoryFailure = none := memoryFailure_eq_none_iff.mpr ⟨h.size, h.range⟩
  have hmade : o.tape.Made := .blank (blank_of_room hmemory (hroom hmemory))
  have hstart := start_of_passes (limitFailure_eq_none_iff.mpr h.limit) text piped
  exact .of_start hmade.valid (o.input_integral text piped) hstart

/-- A run fails in one of the machine's own ways, or for want of input. -/
theorem Acceptable.run_fault (hroom : o.memoryFailure = none → o.size ≤ room.cells)
    (hf : ((o.machine text piped).run fuel).2 = .error (.fault f)) : f.isMachine = true ∨ f.kind = .endOfInput := by
  have hrun := (h.machine_safe hroom piped).run h.program fuel
  have hblocked := hrun.blocked f hf
  obtain ⟨rfl, -⟩ | ⟨hkind, -⟩ | ⟨v, rfl, -⟩ := hblocked.cases hrun.safe (Machine.run_sameSettings fuel _)
  · exact Or.inl rfl
  · exact Or.inr hkind
  · exact Or.inl rfl

/-- A run that is not cut off shows what has been written up to its end. -/
theorem Acceptable.run_tells (hroom : o.memoryFailure = none → o.size ≤ room.cells) {events : List Event}
    {n : ℕ} {m : Machine} {result : Except Fault Unit}
    (hprepare : prepare files piped o.settings room = (events, .ok (o.machine text piped)))
    (hevents : ∀ e ∈ events, e.level = Level.debug) (hcheck : o.check = false)
    (hn : (o.machine text piped).Ends n m (result.mapError .fault)) (hfuel : n < fuel) :
    ((course fuel files piped o.settings room).report rank).Tells rank m.sink.text result := by
  obtain ⟨m', hrun, hbare⟩ := Machine.run_of_ends_of_lt h.program hn hfuel
  have hcourse : course fuel files piped o.settings room =
      ⟨events ++ m'.journal.toList, m'.sink.text, result.mapError .fault⟩ := by
    have hsettings : o.settings.check = false := hcheck
    simp only [course, hprepare, hsettings, hrun, Bool.false_eq_true, if_false]
  have htext : m'.sink.text = m.sink.text := by
    have hsink : m'.bare.sink = m.bare.sink := congrArg Machine.sink hbare
    exact congrArg Sink.text hsink
  have hquiet : m'.Quiet := by
    have hstart : (o.machine text piped).Quiet := by simp [Machine.Quiet, machine]
    have hquiet := hstart.run fuel
    rwa [hrun] at hquiet
  rw [hcourse, ← htext]
  refine Course.tells rank ?_ rfl ?_
  · intro e he
    obtain he | he := List.mem_append.mp he
    · exact hevents e he
    · exact hquiet e (Array.mem_toList_iff.mp he)
  · rintro f rfl
    have hfault : ((o.machine text piped).run fuel).2 = .error (.fault f) := by
      rw [hrun]
      rfl
    exact h.run_fault hroom hfault

end Run

theorem Reported.exits {report : ℕ → List UInt8 → Report} (h : o.Reported files rank report) :
    o.Exits files report := by
  intro piped hends
  cases hfailure : o.failure? files with
  | some f =>
    refine ⟨0, ?_⟩
    intro fuel _
    have hexit := (h.refused f hfailure fuel piped).exit
    rw [hexit]
    refine ⟨Or.inr rfl, iff_of_false (by simp [exitCode]) ?_⟩
    rintro ⟨text, hacceptable, -⟩
    cases hacceptable.failure_eq_none.symm.trans hfailure
  | none =>
    obtain ⟨text, hacceptable⟩ := h.accepted.mp hfailure
    cases hcheck : o.check with
    | true =>
      refine ⟨0, ?_⟩
      intro fuel _
      have hexit := (h.counted text hacceptable hcheck fuel piped).exit
      rw [hexit]
      exact ⟨Or.inl rfl, iff_of_true rfl ⟨text, hacceptable, by simp⟩⟩
    | false =>
      obtain ⟨n, m, result, hn, htells⟩ := h.ran text piped hacceptable hcheck (hends text hacceptable hcheck)
      refine ⟨n, ?_⟩
      intro fuel hfuel
      rw [(htells fuel hfuel).exit]
      cases result with
      | ok u =>
        have hhalts := (Machine.halts_iff_ends hacceptable.program).mpr ⟨n, m, hn⟩
        exact ⟨Or.inl rfl, iff_of_true rfl ⟨text, hacceptable, fun _ => hhalts⟩⟩
      | error f =>
        refine ⟨Or.inr rfl, iff_of_false (by simp [exitCode]) ?_⟩
        rintro ⟨text', hacceptable', hhalts⟩
        obtain rfl := Option.some.inj (hacceptable'.text_eq.symm.trans hacceptable.text_eq)
        obtain ⟨k, m', hk⟩ := (Machine.halts_iff_ends hacceptable.program).mp (hhalts rfl)
        obtain ⟨-, -, hresult⟩ := hn.unique hk
        cases hresult

section Outcome
variable {arguments : List String} (hr : grammar.read {} arguments = .ok (.settings o.settings))
  (hlevel : rankOf o.level Level.warning.rank = .ok rank)
include hr hlevel

theorem run_eq_report (fuel : ℕ) (files : Files) (piped : List UInt8) :
    Interpreter.run fuel files piped arguments room = (course fuel files piped o.settings room).report rank := by
  have hrank : (o.settings.logLevel >>= fun word => rankOf word Level.warning.rank) = .ok rank := hlevel
  simp only [Interpreter.run, hr, runWith, hrank]

theorem reported_of_failure {events : List Event} (hfailure : o.failure? files = some f)
    (hevents : ∀ e ∈ events, e.level = Level.debug)
    (hcourse : ∀ fuel piped, course fuel files piped o.settings room = ⟨events, "", .error (.fault f)⟩) :
    o.Reported files rank fun fuel piped => Interpreter.run fuel files piped arguments room := by
  have hnone : ∀ {text}, ¬ o.Acceptable files text := by
    intro text h
    cases h.failure_eq_none.symm.trans hfailure
  constructor
  · refine iff_of_false (by simp [hfailure]) ?_
    rintro ⟨text, h⟩
    exact hnone h
  · intro g hg fuel piped
    obtain rfl := Option.some.inj (hfailure.symm.trans hg)
    rw [run_eq_report hr hlevel, hcourse]
    refine Course.tells rank hevents rfl ?_
    rintro g ⟨⟩
    exact Or.inl (failure_isMachine hfailure)
  · intro text h
    exact absurd h hnone
  · intro text piped h
    exact absurd h hnone

theorem Acceptable.reported (h : o.Acceptable files text) (hroom : o.memoryFailure = none → o.size ≤ room.cells)
    {events : List Event} (hevents : ∀ e ∈ events, e.level = Level.debug)
    (hprepare : ∀ piped, prepare files piped o.settings room = (events, .ok (o.machine text piped))) :
    o.Reported files rank fun fuel piped => Interpreter.run fuel files piped arguments room := by
  have hsame : ∀ {found}, o.Acceptable files found → found = text := fun h' =>
    Option.some.inj (h'.text_eq.symm.trans h.text_eq)
  constructor
  · exact iff_of_true h.failure_eq_none ⟨text, h⟩
  · intro f hf
    cases h.failure_eq_none.symm.trans hf
  · intro found h' hcheck fuel piped
    obtain rfl := hsame h'
    have hcourse : course fuel files piped o.settings room =
        ⟨events, s!"OK: {(Program.ofSource found).size} instructions\n", .ok ()⟩ := by
      have hsettings : o.settings.check = true := hcheck
      have hvalid : (o.machine found piped).program.validate = .ok () := h.program
      simp only [course, hprepare, hsettings, if_true, checked, hvalid]
      rfl
    rw [run_eq_report hr hlevel, hcourse]
    refine Course.tells rank hevents rfl ?_
    rintro f ⟨⟩
  · intro found piped h' hcheck hterminates
    obtain rfl := hsame h'
    obtain ⟨n, m, result, hn⟩ := hterminates.exists_ends h.program
    refine ⟨n, m, result, hn, ?_⟩
    intro fuel hfuel
    rw [run_eq_report hr hlevel]
    exact h.run_tells hroom (hprepare piped) hevents hcheck hn hfuel

variable (hpath : ∀ path, o.source = some path → '\x00' ∉ path.toList)
  (hroom : o.memoryFailure = none → o.size ≤ room.cells)
include hpath hroom

theorem outcome_reported :
    (o.Reported files rank fun fuel piped => Interpreter.run fuel files piped arguments room) ∧
      o.Exits files fun fuel piped => Interpreter.run fuel files piped arguments room := by
  have hreported : o.Reported files rank fun fuel piped => Interpreter.run fuel files piped arguments room := by
    obtain ⟨f, events, hfailure, hevents, hprepare⟩ | ⟨text, events, hfailure, htext, hevents, haccept, hprepare⟩ :=
      prepare_cases hpath hroom files
    · refine reported_of_failure hr hlevel hfailure hevents ?_
      intro fuel piped
      simp only [course, hprepare]
    · cases hv : (Program.ofSource text).validate with
      | ok u => exact (haccept hv).reported hr hlevel hroom hevents hprepare
      | error f =>
        refine reported_of_failure (f := f) hr hlevel ?_ hevents ?_
        · rw [hfailure, programFailure, htext, Option.bind_some, hv]
        · intro fuel piped
          have hinvalid : (o.machine text piped).program.validate = .error f := hv
          simp only [course, hprepare, checked, hinvalid, Machine.run_of_invalid hinvalid]
          split
          · rfl
          · simp only [machine, List.append_nil]
            rfl
  exact ⟨hreported, hreported.exits⟩

end Outcome

def wantingInput : Options where
  code := some "+.,"
  size := 1

/-- What has been written is shown in front of the complaint. -/
theorem outcome_reported_wanting_input :
    grammar.read {} ["-e", "+.,", "--memory-size", "1"] = .ok (.settings wantingInput.settings) ∧
      rankOf wantingInput.level Level.warning.rank = .ok Level.warning.rank ∧
      (∀ path, wantingInput.source = some path → '\x00' ∉ path.toList) ∧
      (wantingInput.memoryFailure = none → wantingInput.size ≤ (Room.upTo 1).cells) ∧
      ∃ n, ∀ fuel, n < fuel →
        (Interpreter.run fuel .none [] ["-e", "+.,", "--memory-size", "1"] (.upTo 1)).Tells Level.warning.rank
          "\x01" (.error .inputEnded) := by
  have hr : grammar.read {} ["-e", "+.,", "--memory-size", "1"] = .ok (.settings wantingInput.settings) := by
    delta Grammar.read Grammar.readFrom
    rfl
  have hlevel : rankOf wantingInput.level Level.warning.rank = .ok Level.warning.rank := rfl
  have hpath : ∀ path, wantingInput.source = some path → '\x00' ∉ path.toList := by
    rintro path ⟨⟩
  have hroom : wantingInput.memoryFailure = none → wantingInput.size ≤ (Room.upTo 1).cells :=
    fun _ => by decide
  have hacceptable : wantingInput.Acceptable .none "+.," := by
    refine ⟨by decide, by decide, Or.inl ⟨rfl, rfl⟩, ?_, rfl⟩
    rintro n ⟨⟩
  -- the third instruction fails
  have hends : (wantingInput.machine "+.," []).Ends 2 _ (.error (.fault .inputEnded)) := .fails rfl rfl rfl
  have hterminates : (wantingInput.machine "+.," []).Terminates := by
    obtain ⟨m, hrun, -⟩ := Machine.run_of_ends hacceptable.program hends
    exact ⟨3, by simp [hrun]⟩
  obtain ⟨hreported, -⟩ : wantingInput.Reported .none _ _ ∧ _ := outcome_reported hr hlevel hpath hroom
  obtain ⟨n, m, result, hn, htells⟩ := hreported.ran "+.," [] hacceptable rfl hterminates
  obtain ⟨rfl, rfl, hresult⟩ := hends.unique hn
  refine ⟨hr, hlevel, hpath, hroom, 2, ?_⟩
  intro fuel hfuel
  cases result with
  | ok u => cases hresult
  | error f =>
    obtain rfl := Stop.fault.inj (Except.error.inj hresult)
    exact htells fuel hfuel

/-- More cells than can be counted, for a program that is only to be counted. -/
def countedWithoutRoom : Options where
  code := some "+"
  size := 9223372036854775808
  check := true

/-- A tape whose cells cannot be counted, or a number that is withheld, is not reported on, whatever room the
host has. -/
theorem unreported_without_room :
    grammar.read {} ["-e", "+", "--check", "--memory-size", "9223372036854775808"] =
        .ok (.settings countedWithoutRoom.settings) ∧
      countedWithoutRoom.Acceptable .none "+" ∧
      (∀ room fuel piped, Interpreter.run fuel .none piped
          ["-e", "+", "--check", "--memory-size", "9223372036854775808"] room =
        ⟨"", "", .error (.fault .tooManyCells)⟩) ∧
      ∀ room : Room, 30000 ≤ room.cells → ∀ fuel piped,
        Interpreter.run fuel .none piped ["-e", "+", "--check", "--max-steps=--"] room =
          ⟨"", "", .error (.fault .wrongType)⟩ := by
  have hr : grammar.read {} ["-e", "+", "--check", "--memory-size", "9223372036854775808"] =
      .ok (.settings countedWithoutRoom.settings) := by
    delta Grammar.read Grammar.readFrom
    rfl
  have hwithheld : grammar.read {} ["-e", "+", "--check", "--max-steps=--"] =
      .ok (.settings { code := some "+", maxSteps := .error .wrongType, check := true }) := by
    delta Grammar.read Grammar.readFrom
    with_unfolding_all rfl
  have hacceptable : countedWithoutRoom.Acceptable .none "+" := by
    refine ⟨by decide, by decide, Or.inl ⟨rfl, rfl⟩, ?_, rfl⟩
    rintro n ⟨⟩
  refine ⟨hr, hacceptable, ?_, ?_⟩
  · intro room fuel piped
    rw [run_eq_report hr rfl]
    rfl
  · intro room hroom fuel piped
    have hlayout : Settings.layout { code := some "+", maxSteps := .error .wrongType, check := true } = {} := rfl
    have hcourse : course fuel .none piped
        { code := some "+", maxSteps := .error .wrongType, check := true } room =
        ⟨[], "", .error (.fault .wrongType)⟩ := by
      simp only [course, prepare, hlayout, Tape.blank_standard hroom]
      rfl
    simp only [Interpreter.run, hwithheld, runWith, hcourse]
    rfl

end Options

end Interpreter

end CommandLine

end Brainfuck
