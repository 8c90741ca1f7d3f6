import Brainfuck.Machine.Basic
import Brainfuck.Proofs.Matching
import Brainfuck.Proofs.Workspace

/-! Cycles of a machine. A cycle fetches an instruction, decodes its text and carries out the token. At an
action it does to the workspace what the action does; at a bracket it only counts a step, and the current
cell decides where the machine goes on. -/
namespace Brainfuck

section Decoding
variable {i : Instruction}

@[simp] theorem Instruction.ofChar?_toChar (i : Instruction) : ofChar? i.toChar = some i := by
  cases i <;> rfl

theorem Instruction.ofChar?_eq_some {c : Char} : ofChar? c = some i ↔ c = i.toChar := by
  constructor
  · intro h
    unfold ofChar? at h
    split at h <;> cases h <;> rfl
  · rintro rfl
    exact i.ofChar?_toChar

theorem Instruction.ofString?_eq_some {s : String} : ofString? s = some i ↔ s = i.toString := by
  rw [toString, ← String.toList_inj, Char.toString, String.toList_singleton]
  unfold ofString?
  split
  · next c hc => rw [hc, ofChar?_eq_some, List.singleton_inj]
  · next hc =>
    constructor
    · intro h
      cases h
    · intro h
      exact absurd h (hc _)

/-- A text is the text of an instruction, or it does not stand for one. -/
theorem Token.ofText?_eq_instruction {text : Option String} :
    ofText? text = .instruction i ↔ text = some i.toString := by
  cases text with
  | none => simp [ofText?]
  | some s =>
    rw [Option.some_inj, ← Instruction.ofString?_eq_some, ofText?, Option.bind_some]
    cases Instruction.ofString? s with
    | none => simp
    | some j => simp

end Decoding

namespace Machine

/-- An instruction's own text is decoded to what carries it out. -/
theorem dispatch_ofText? (m : Machine) (i : Instruction) :
    m.dispatch (.ofText? (some i.toString)) = m.perform i := by
  rw [Token.ofText?_eq_instruction.mpr rfl, dispatch]

/-- What the program works on. -/
def workspace (m : Machine) : Workspace :=
  ⟨m.tape, m.dataPointer, m.input, m.sink, m.steps⟩

def advance (m : Machine) : Machine :=
  { m with instructionPointer := m.instructionPointer + 1, steps := m.steps + 1 }

@[simp] theorem advance_workspace (m : Machine) : m.advance.workspace = m.workspace.tick := rfl

@[simp] theorem advance_instructionPointer (m : Machine) :
    m.advance.instructionPointer = m.instructionPointer + 1 := rfl

/-- A cycle checks the limit, fetches, decodes and dispatches, and then advances. -/
theorem cycle_eq_dispatch (m : Machine) : m.cycle =
    if m.limitReached then (m, .error (.fault .stepLimit))
    else
      match m.program.instructionAt (.integer m.instructionPointer) with
      | .error f => (m, .error (.fault f))
      | .ok i =>
        match m.dispatch (.ofText? (some i.toString)) with
        | (m', .error e) => (m', .error e)
        | (m', .ok ()) => (m'.advance, .ok i) := by
  simp only [cycle, dispatch_ofText?]
  rfl

section Outcome
variable {m m' : Machine} {c : Instruction} {e : Stop}

theorem cycle_of_ok (hl : m.limitReached = false)
    (hc : m.program.instructionAt (.integer m.instructionPointer) = .ok c)
    (hp : m.perform c = (m', .ok ())) : m.cycle = (m'.advance, .ok c) := by
  simp only [cycle, hl, hc, hp]
  rfl

theorem cycle_of_error (hl : m.limitReached = false)
    (hc : m.program.instructionAt (.integer m.instructionPointer) = .ok c)
    (hp : m.perform c = (m', .error e)) : m.cycle = (m', .error e) := by
  simp only [cycle, hl, hc, hp]
  rfl

theorem cycle_of_fault {f : Fault} (hl : m.limitReached = false)
    (hc : m.program.instructionAt (.integer m.instructionPointer) = .error f) :
    m.cycle = (m, .error (.fault f)) := by
  simp only [cycle, hl, hc]
  rfl

theorem cycle_of_limitReached (hl : m.limitReached = true) :
    m.cycle = (m, .error (.fault .stepLimit)) := by
  simp only [cycle, hl, if_true]

/-- All ways in which a cycle goes: the limit is reached, there is no instruction, the instruction
fails, or it is carried out. -/
theorem cycle_cases (m : Machine) :
    (m.limitReached = true ∧ m.cycle = (m, .error (.fault .stepLimit))) ∨
      m.limitReached = false ∧
        ((∃ f, m.program.instructionAt (.integer m.instructionPointer) = .error f ∧
            m.cycle = (m, .error (.fault f))) ∨
          ∃ c m' r, m.program.instructionAt (.integer m.instructionPointer) = .ok c ∧
            m.perform c = (m', r) ∧
              (r = .ok () ∧ m.cycle = (m'.advance, .ok c) ∨
                ∃ e, r = .error e ∧ m.cycle = (m', .error e))) := by
  cases hl : m.limitReached with
  | true => exact Or.inl ⟨rfl, cycle_of_limitReached hl⟩
  | false =>
    refine Or.inr ⟨rfl, ?_⟩
    cases hc : m.program.instructionAt (.integer m.instructionPointer) with
    | error f => exact Or.inl ⟨f, rfl, cycle_of_fault hl hc⟩
    | ok c =>
      rcases hp : m.perform c with ⟨m', r⟩
      refine Or.inr ⟨c, m', r, rfl, hp, ?_⟩
      cases r with
      | ok u => exact Or.inl ⟨rfl, cycle_of_ok hl hc hp⟩
      | error e => exact Or.inr ⟨e, rfl, cycle_of_error hl hc hp⟩

/-- What every instruction preserves, also one that fails, a cycle preserves. -/
theorem cycle_induction {Q : Machine → Prop} (hm : Q m) (hperform : ∀ c, Q (m.perform c).1)
    (hadvance : ∀ m, Q m → Q m.advance) : Q m.cycle.1 := by
  obtain ⟨-, hc⟩ | ⟨-, ⟨f, -, hc⟩ | ⟨c, m', r, -, hp, hr⟩⟩ := m.cycle_cases
  · rwa [hc]
  · rwa [hc]
  · have hperform := hperform c
    rw [hp] at hperform
    obtain ⟨-, hc⟩ | ⟨e, -, hc⟩ := hr
    · rw [hc]
      exact hadvance m' hperform
    · rwa [hc]

/-- A cycle that succeeds has carried out an instruction. -/
theorem exists_perform_of_cycle_ok (h : m.cycle = (m', .ok c)) :
    m.limitReached = false ∧ m.program.instructionAt (.integer m.instructionPointer) = .ok c ∧
      ∃ m₁, m.perform c = (m₁, .ok ()) ∧ m' = m₁.advance := by
  obtain ⟨-, hc⟩ | ⟨hl, ⟨f, -, hc⟩ | ⟨c', m₁, r, hi, hp, ⟨rfl, hc⟩ | ⟨e, -, hc⟩⟩⟩ := m.cycle_cases
  · cases h.symm.trans hc
  · cases h.symm.trans hc
  · cases h.symm.trans hc
    exact ⟨hl, hi, m₁, hp, rfl⟩
  · cases h.symm.trans hc

/-- A cycle that fails leaves the machine alone, or its instruction fails. -/
theorem cycle_error_cases (h : m.cycle = (m', .error e)) :
    m' = m ∧ (e = .fault .stepLimit ∨
        ∃ f, m.program.instructionAt (.integer m.instructionPointer) = .error f ∧ e = .fault f) ∨
      m.limitReached = false ∧ ∃ c, m.program.instructionAt (.integer m.instructionPointer) = .ok c ∧
        m.perform c = (m', .error e) := by
  obtain ⟨-, hc⟩ | ⟨hl, ⟨f, hi, hc⟩ | ⟨c, m₁, r, hi, hp, ⟨-, hc⟩ | ⟨e, rfl, hc⟩⟩⟩ := m.cycle_cases
  · cases h.symm.trans hc
    exact Or.inl ⟨rfl, Or.inl rfl⟩
  · cases h.symm.trans hc
    exact Or.inl ⟨rfl, Or.inr ⟨f, hi, rfl⟩⟩
  · cases h.symm.trans hc
  · cases h.symm.trans hc
    exact Or.inr ⟨hl, c, hi, hp⟩

/-- Only inside the program is there something to carry out. -/
theorem cycle_ok_inside (h : m.cycle = (m', .ok c)) :
    0 ≤ m.instructionPointer ∧ m.instructionPointer < m.program.size :=
  Program.instructionAt_ok (exists_perform_of_cycle_ok h).2.1

theorem not_halted_of_inside (h : m.instructionPointer < m.program.size) : m.halted = false := by
  simpa [halted] using h

theorem not_halted_of_cycle_ok (h : m.cycle = (m', .ok c)) : m.halted = false :=
  not_halted_of_inside (cycle_ok_inside h).2

end Outcome

/-- Each instruction changes only its own part of the machine, also one that fails. -/
structure Footprint (m : Machine) (c : Instruction) (m' : Machine) : Prop where
  input : c ≠ .read → m'.input = m.input
  journal : c ≠ .read → m'.journal = m.journal
  sink : c ≠ .write → m'.sink = m.sink
  dataPointer : c ≠ .right → c ≠ .left → m'.dataPointer = m.dataPointer

section Footprint
variable (m : Machine)

theorem store_footprint (v : Datum) : ∃ tape, (m.store v).1 = { m with tape } := by
  unfold store
  split
  · exact ⟨m.tape, rfl⟩
  · exact ⟨_, rfl⟩

theorem update_footprint (f : Tape → Int → Int) : ∃ tape, (m.update f).1 = { m with tape } := by
  unfold update
  split
  · exact ⟨m.tape, rfl⟩
  · exact m.store_footprint _

theorem receive_footprint : ∃ tape, m.receive.1 = { m with
    tape
    input := (m.input.readWithin m.tape.minimum m.tape.maximum).rest
    journal := m.journal ++
      ((m.input.readWithin m.tape.minimum m.tape.maximum).discarded.map Event.discarded).toArray } := by
  unfold receive
  dsimp only
  split
  · exact ⟨m.tape, rfl⟩
  · exact store_footprint _ _

theorem send_footprint : ∃ sink, m.send.1 = { m with sink } := by
  unfold send
  split
  · exact ⟨m.sink, rfl⟩
  · split
    · exact ⟨m.sink, rfl⟩
    · exact ⟨_, rfl⟩

theorem jumpIf_footprint (d : Direction) (test : Int → Bool) :
    ∃ i, (m.jumpIf d test).1 = { m with instructionPointer := i } := by
  unfold jumpIf
  split
  · exact ⟨m.instructionPointer, rfl⟩
  · split
    · split
      · exact ⟨m.instructionPointer, rfl⟩
      · exact ⟨_, rfl⟩
    · exact ⟨m.instructionPointer, rfl⟩

theorem perform_footprint (c : Instruction) : m.Footprint c (m.perform c).1 := by
  have hupdate : ∀ f : Tape → Int → Int, m.Footprint c (m.update f).1 := by
    intro f
    obtain ⟨tape, h⟩ := m.update_footprint f
    rw [h]
    exact ⟨fun _ => rfl, fun _ => rfl, fun _ => rfl, fun _ _ => rfl⟩
  have hjumpIf : ∀ d test, m.Footprint c (m.jumpIf d test).1 := by
    intro d test
    obtain ⟨i, h⟩ := m.jumpIf_footprint d test
    rw [h]
    exact ⟨fun _ => rfl, fun _ => rfl, fun _ => rfl, fun _ _ => rfl⟩
  cases c with
  | right => exact ⟨fun _ => rfl, fun _ => rfl, fun _ => rfl, fun h => absurd rfl h⟩
  | left => exact ⟨fun _ => rfl, fun _ => rfl, fun _ => rfl, fun _ h => absurd rfl h⟩
  | increment => exact hupdate _
  | decrement => exact hupdate _
  | read =>
    obtain ⟨tape, h⟩ := m.receive_footprint
    rw [perform, h]
    exact ⟨absurd rfl, absurd rfl, fun _ => rfl, fun _ _ => rfl⟩
  | write =>
    obtain ⟨sink, h⟩ := m.send_footprint
    rw [perform, h]
    exact ⟨fun _ => rfl, fun _ => rfl, absurd rfl, fun _ _ => rfl⟩
  | loopOpen => exact hjumpIf _ _
  | loopClose => exact hjumpIf _ _

end Footprint

section Settings

structure SameSettings (m m' : Machine) : Prop where
  program : m'.program = m.program
  maxSteps : m'.maxSteps = m.maxSteps
  minimum : m'.tape.minimum = m.tape.minimum
  maximum : m'.tape.maximum = m.tape.maximum
  default : m'.tape.default = m.tape.default
  size : m'.tape.size = m.tape.size
  kind : m'.sink.kind = m.sink.kind
  ending : m'.input.ending = m.input.ending

theorem SameSettings.refl (m : Machine) : m.SameSettings m :=
  ⟨rfl, rfl, rfl, rfl, rfl, rfl, rfl, rfl⟩

theorem SameSettings.trans {m₁ m₂ m₃ : Machine} (h : m₁.SameSettings m₂) (h' : m₂.SameSettings m₃) :
    m₁.SameSettings m₃ :=
  ⟨h'.program.trans h.program, h'.maxSteps.trans h.maxSteps, h'.minimum.trans h.minimum,
    h'.maximum.trans h.maximum, h'.default.trans h.default, h'.size.trans h.size,
    h'.kind.trans h.kind, h'.ending.trans h.ending⟩

theorem SameSettings.advance {m m' : Machine} (h : m.SameSettings m') : m.SameSettings m'.advance :=
  ⟨h.program, h.maxSteps, h.minimum, h.maximum, h.default, h.size, h.kind, h.ending⟩

theorem record_sameSettings (m : Machine) (e : Event) : m.SameSettings (m.record e) :=
  ⟨rfl, rfl, rfl, rfl, rfl, rfl, rfl, rfl⟩

theorem seek_ending (lo hi : Int) (ending : Ending) (vs : List Datum) :
    (Input.seek lo hi ending vs).rest.ending = ending := by
  induction vs with
  | nil =>
    simp only [Input.seek]
    split
    · rfl
    · split <;> rfl
  | cons v vs ih =>
    simp only [Input.seek]
    split
    · rfl
    · exact ih
    · rfl

end Settings

/-- What an instruction leaves alone: the settings and the steps, and the instruction pointer, too, if it is
not a bracket that is carried out. -/
structure Spares (m : Machine) (c : Instruction) (r : Machine × Except Stop Unit) : Prop where
  settings : m.SameSettings r.1
  steps : r.1.steps = m.steps
  pointer : r.1.instructionPointer = m.instructionPointer ∨
    r.2 = .ok () ∧ (c = .loopOpen ∨ c = .loopClose)

section Frame
variable (m : Machine) (c : Instruction)

theorem Spares.refl (r : Except Stop Unit) : m.Spares c (m, r) :=
  ⟨.refl m, rfl, Or.inl rfl⟩

theorem store_spares (v : Datum) : m.Spares c (m.store v) := by
  unfold store
  split
  · exact .refl m c _
  · constructor
    · exact ⟨rfl, rfl, rfl, rfl, rfl, Tape.set_size _ _ _, rfl, rfl⟩
    · rfl
    · exact Or.inl rfl

theorem update_spares (f : Tape → Int → Int) : m.Spares c (m.update f) := by
  unfold update
  split
  · exact .refl m c _
  · exact m.store_spares c _

theorem move_spares (distance : Int) : m.Spares c (m.move distance, .ok ()) := by
  constructor
  · exact ⟨rfl, rfl, rfl, rfl, rfl, rfl, rfl, rfl⟩
  · rfl
  · exact Or.inl rfl

theorem receive_spares : m.Spares c m.receive := by
  have hread : ∀ journal, m.SameSettings { m with
      input := (m.input.readWithin m.tape.minimum m.tape.maximum).rest, journal } := by
    intro journal
    have hending : (m.input.readWithin m.tape.minimum m.tape.maximum).rest.ending = m.input.ending :=
      seek_ending _ _ _ _
    exact ⟨rfl, rfl, rfl, rfl, rfl, rfl, rfl, hending⟩
  unfold receive
  dsimp only
  split
  · exact ⟨hread _, rfl, Or.inl rfl⟩
  · obtain ⟨hsettings, hsteps, hpointer⟩ := store_spares { m with
      input := (m.input.readWithin m.tape.minimum m.tape.maximum).rest
      journal := m.journal ++ ((m.input.readWithin m.tape.minimum m.tape.maximum).discarded.map
        Event.discarded).toArray } c _
    exact ⟨(hread _).trans hsettings, hsteps, hpointer⟩

theorem send_spares : m.Spares c m.send := by
  unfold send
  split
  · exact .refl m c _
  · split
    · exact .refl m c _
    · constructor
      · exact ⟨rfl, rfl, rfl, rfl, rfl, rfl, rfl, rfl⟩
      · rfl
      · exact Or.inl rfl

variable {c}

theorem jumpIf_spares (hc : c = .loopOpen ∨ c = .loopClose) (d : Direction) (test : Int → Bool) :
    m.Spares c (m.jumpIf d test) := by
  unfold jumpIf
  split
  · exact .refl m c _
  · split
    · split
      · exact .refl m c _
      · constructor
        · exact ⟨rfl, rfl, rfl, rfl, rfl, rfl, rfl, rfl⟩
        · rfl
        · exact Or.inr ⟨rfl, hc⟩
    · exact .refl m c _

theorem perform_spares (c : Instruction) : m.Spares c (m.perform c) := by
  cases c with
  | right => exact m.move_spares _ 1
  | left => exact m.move_spares _ (-1)
  | increment => exact m.update_spares _ _
  | decrement => exact m.update_spares _ _
  | read => exact m.receive_spares _
  | write => exact m.send_spares _
  | loopOpen => exact m.jumpIf_spares (Or.inl rfl) _ _
  | loopClose => exact m.jumpIf_spares (Or.inr rfl) _ _

end Frame

theorem cycle_sameSettings (m : Machine) : m.SameSettings m.cycle.1 :=
  cycle_induction (.refl m) (fun c => (m.perform_spares c).settings) fun _ h => h.advance

theorem SameSettings.of_cycle {m m' : Machine} {r : Except Stop Instruction} (h : m.cycle = (m', r)) :
    m.SameSettings m' := by
  have hcycle := m.cycle_sameSettings
  rwa [h] at hcycle

/-- A checked program stays checked. -/
theorem SameSettings.validate {m m' : Machine} (h : m.SameSettings m')
    (hv : m.program.validate = .ok ()) : m'.program.validate = .ok () := by
  rw [h.program, hv]

theorem cycle_ok_steps {m m' : Machine} {c : Instruction} (h : m.cycle = (m', .ok c)) :
    m'.steps = m.steps + 1 := by
  obtain ⟨-, -, m₁, hp, rfl⟩ := exists_perform_of_cycle_ok h
  have hsteps := (m.perform_spares c).steps
  rw [hp] at hsteps
  exact congrArg (· + 1) hsteps

/-- A cycle that fails leaves the instruction pointer and the steps alone. -/
theorem cycle_error_counters {m m' : Machine} {e : Stop} (h : m.cycle = (m', .error e)) :
    m'.instructionPointer = m.instructionPointer ∧ m'.steps = m.steps := by
  obtain ⟨rfl, -⟩ | ⟨-, c, -, hp⟩ := cycle_error_cases h
  · exact ⟨rfl, rfl⟩
  · obtain ⟨-, hsteps, hpointer⟩ := m.perform_spares c
    rw [hp] at hsteps hpointer
    obtain hpointer | ⟨hok, -⟩ := hpointer
    · exact ⟨hpointer, hsteps⟩
    · cases hok

theorem jumpIf_workspace (m : Machine) (d : Direction) (test : Int → Bool) :
    (m.jumpIf d test).1.workspace = m.workspace := by
  obtain ⟨i, h⟩ := m.jumpIf_footprint d test
  rw [h]
  rfl

section Workspace
variable {m : Machine} (hv : m.workspace.Valid)
include hv

theorem current_ok : m.current = .ok m.workspace.current :=
  Tape.read_integer hv.pointer_nonneg hv.pointer_lt

theorem store_integer {v : Int} (h : m.tape.minimum ≤ v ∧ v ≤ m.tape.maximum) :
    m.store (.integer v) = ({ m with tape := m.tape.set m.dataPointer.toNat v }, .ok ()) := by
  have htarget : m.tape.target (.integer m.dataPointer) (.integer v) = .ok (m.dataPointer.toNat, v) :=
    Tape.target_integer hv.pointer_nonneg hv.pointer_lt h
  simp only [store, htarget]

theorem update_ok {f : Tape → Int → Int}
    (h : m.tape.minimum ≤ f m.tape m.workspace.current ∧ f m.tape m.workspace.current ≤ m.tape.maximum) :
    m.update f =
      ({ m with tape := m.tape.set m.dataPointer.toNat (f m.tape m.workspace.current) }, .ok ()) := by
  simp only [update, current_ok hv]
  exact store_integer hv h

theorem receive_workspace :
    m.receive.2 = m.workspace.receive.2 ∧ m.receive.1.workspace = m.workspace.receive.1 := by
  obtain ⟨houtcome, hrest⟩ := Input.readWithin_eq_search hv.input m.tape.minimum m.tape.maximum
  have hsearch := hv.search m.tape.minimum m.tape.maximum
  unfold receive Workspace.receive
  simp only [workspace] at houtcome hrest hsearch ⊢
  rw [houtcome, hrest]
  rcases hs : m.input.search m.tape.minimum m.tape.maximum with ⟨found, rest⟩
  rw [hs] at hsearch
  cases found with
  | error e => exact ⟨rfl, rfl⟩
  | ok n =>
    let m₁ := { m with
      input := rest
      journal := m.journal ++ ((m.input.readWithin m.tape.minimum m.tape.maximum).discarded.map
        Event.discarded).toArray }
    have hv₁ : m₁.workspace.Valid := hsearch
    have hstore := store_integer hv₁ (Input.search_ok (congrArg Prod.fst hs))
    simp only [Except.map, m₁] at hstore ⊢
    rw [hstore]
    exact ⟨rfl, rfl⟩

/-- Whatever is read is an integer that fits into the cell, and behind it the workspace is still valid. -/
theorem received {v : Datum} (journal : Array Event)
    (h : (m.input.readWithin m.tape.minimum m.tape.maximum).outcome = .ok v) :
    ({ m with input := (m.input.readWithin m.tape.minimum m.tape.maximum).rest, journal } : Machine).workspace.Valid ∧
      ∃ n, v = .integer n ∧ m.tape.minimum ≤ n ∧ n ≤ m.tape.maximum := by
  have hintegral : m.input.Integral := hv.input
  obtain ⟨houtcome, hrest⟩ := Input.readWithin_eq_search hintegral m.tape.minimum m.tape.maximum
  have hsearch := hv.search m.tape.minimum m.tape.maximum
  rw [houtcome] at h
  refine ⟨?_, ?_⟩
  · rw [hrest]
    exact hsearch
  · cases hfound : (m.input.search m.tape.minimum m.tape.maximum).1 with
    | error e => rw [hfound] at h; cases h
    | ok n =>
      rw [hfound] at h
      exact ⟨n, (Except.ok.inj h).symm, Input.search_ok hfound⟩

theorem send_workspace :
    m.send.2 = m.workspace.send.2 ∧ m.send.1.workspace = m.workspace.send.1 := by
  unfold send Workspace.send
  rw [current_ok hv]
  dsimp only
  rw [Sink.accept_integer]
  by_cases h : m.sink.kind = .row ∨ (0 ≤ m.workspace.current ∧ m.workspace.current ≤ 255)
  · rw [if_pos h, if_pos (show m.workspace.sink.kind = .row ∨ _ from h)]
    exact ⟨rfl, rfl⟩
  · rw [if_neg h, if_neg (show ¬ (m.workspace.sink.kind = .row ∨ _) from h)]
    exact ⟨rfl, rfl⟩

/-- A machine at an action does to its workspace what the action does. -/
theorem perform_action (a : Action) :
    (m.perform a.instruction).2 = (a.perform m.workspace).2 ∧
      (m.perform a.instruction).1.workspace = (a.perform m.workspace).1 ∧
      (m.perform a.instruction).1.instructionPointer = m.instructionPointer := by
  have hbetween := hv.current_between
  have hpointer : (m.perform a.instruction).1.instructionPointer = m.instructionPointer := by
    obtain hpointer | ⟨-, hopen | hclose⟩ := (m.perform_spares a.instruction).pointer
    · exact hpointer
    · exact absurd hopen a.instruction_ne_open
    · exact absurd hclose a.instruction_ne_close
  cases a with
  | right => exact ⟨rfl, rfl, hpointer⟩
  | left => exact ⟨rfl, rfl, hpointer⟩
  | increment =>
    have hupdate : m.perform .increment = _ := update_ok hv (Tape.next_between hbetween)
    rw [Action.instruction, hupdate]
    exact ⟨rfl, rfl, rfl⟩
  | decrement =>
    have hupdate : m.perform .decrement = _ := update_ok hv (Tape.previous_between hbetween)
    rw [Action.instruction, hupdate]
    exact ⟨rfl, rfl, rfl⟩
  | read =>
    obtain ⟨houtcome, hworkspace⟩ := receive_workspace hv
    exact ⟨houtcome, hworkspace, hpointer⟩
  | write =>
    obtain ⟨houtcome, hworkspace⟩ := send_workspace hv
    exact ⟨houtcome, hworkspace, hpointer⟩

/-- Instructions keep the workspace valid, also those that fail. -/
theorem perform_valid (c : Instruction) : (m.perform c).1.workspace.Valid := by
  obtain ⟨a, rfl⟩ | rfl | rfl := c.action_or_bracket
  · obtain ⟨-, hvorkspace, -⟩ := perform_action hv a
    rw [hvorkspace]
    exact hv.perform a
  · have hvorkspace : (m.perform .loopOpen).1.workspace = m.workspace := m.jumpIf_workspace _ _
    rw [hvorkspace]
    exact hv
  · have hvorkspace : (m.perform .loopClose).1.workspace = m.workspace := m.jumpIf_workspace _ _
    rw [hvorkspace]
    exact hv

theorem cycle_valid : m.cycle.1.workspace.Valid :=
  cycle_induction (Q := fun m => m.workspace.Valid) hv (perform_valid hv) fun _ h => h.tick

theorem cycle_action_ok (hl : m.limitReached = false) {a : Action} {t : Workspace}
    (hc : m.program.instructionAt (.integer m.instructionPointer) = .ok a.instruction)
    (ha : a.perform m.workspace = (t, .ok ())) :
    ∃ m', m.cycle = (m', .ok a.instruction) ∧ m'.workspace = t.tick ∧
      m'.instructionPointer = m.instructionPointer + 1 := by
  obtain ⟨houtcome, hworkspace, hpointer⟩ := perform_action hv a
  rw [ha] at houtcome hworkspace
  refine ⟨(m.perform a.instruction).1.advance, cycle_of_ok hl hc (Prod.ext rfl houtcome), ?_, ?_⟩
  · rw [advance_workspace, hworkspace]
  · rw [advance_instructionPointer, hpointer]

theorem cycle_action_error (hl : m.limitReached = false) {a : Action} {t : Workspace} {e : Stop}
    (hc : m.program.instructionAt (.integer m.instructionPointer) = .ok a.instruction)
    (ha : a.perform m.workspace = (t, .error e)) :
    ∃ m', m.cycle = (m', .error e) ∧ m'.workspace = t ∧
      m'.instructionPointer = m.instructionPointer := by
  obtain ⟨houtcome, hworkspace, hpointer⟩ := perform_action hv a
  rw [ha] at houtcome hworkspace
  exact ⟨(m.perform a.instruction).1, cycle_of_error hl hc (Prod.ext rfl houtcome), hworkspace, hpointer⟩

/-- Both brackets of a loop test the current cell. Whichever it was, the machine goes on behind the
loop if the cell is nought, and else at the beginning of its body. -/
theorem cycle_test (hl : m.limitReached = false) {i : Int} {body : Block} {tail : List Instruction}
    (h : m.program.Holds i (.loopOpen :: (body.flatten ++ .loopClose :: tail)))
    (hi : m.instructionPointer = i ∨ m.instructionPointer = i + 1 + body.flatten.length) :
    ∃ m' c, m.cycle = (m', .ok c) ∧ m'.workspace = m.workspace.tick ∧
      m'.instructionPointer =
        if m.workspace.current = 0 then i + 1 + body.flatten.length + 1 else i + 1 := by
  have hcurrent := current_ok hv
  obtain hi | hi := hi
  · have hc := h.head
    have hjump := Program.jumpDistance_forward h
    rw [← hi] at hc hjump
    by_cases hz : m.workspace.current = 0
    · have hp : m.perform .loopOpen = ({ m with
          instructionPointer := m.instructionPointer + (body.flatten.length + 1) }, .ok ()) := by
        simp [perform, jumpIf, hcurrent, hz, hjump]
      refine ⟨_, _, cycle_of_ok hl hc hp, rfl, ?_⟩
      rw [if_pos hz, advance_instructionPointer, hi]
      dsimp only
      omega
    · have hp : m.perform .loopOpen = (m, .ok ()) := by
        simp [perform, jumpIf, hcurrent, hz]
      refine ⟨_, _, cycle_of_ok hl hc hp, rfl, ?_⟩
      rw [if_neg hz, advance_instructionPointer, hi]
  · have hc := h.tail.right.head
    have hjump := Program.jumpDistance_backward h
    rw [← hi] at hc hjump
    by_cases hz : m.workspace.current = 0
    · have hp : m.perform .loopClose = (m, .ok ()) := by
        simp [perform, jumpIf, hcurrent, hz]
      refine ⟨_, _, cycle_of_ok hl hc hp, rfl, ?_⟩
      rw [if_pos hz, advance_instructionPointer, hi]
    · have hp : m.perform .loopClose = ({ m with
          instructionPointer := m.instructionPointer + -(body.flatten.length + 1) }, .ok ()) := by
        simp [perform, jumpIf, hcurrent, hz, hjump]
      refine ⟨_, _, cycle_of_ok hl hc hp, rfl, ?_⟩
      rw [if_neg hz, advance_instructionPointer, hi]
      dsimp only
      omega

end Workspace

end Machine

end Brainfuck
