import Brainfuck.Proofs.Cycle
import Brainfuck.Proofs.Reads

/-! Atomic cycles. Each instruction does all that could fail before it changes anything but the input, so that a
cycle that fails leaves the machine as it was, up to the values that it has read. -/
namespace Brainfuck

theorem position_ok {what : String} {size i : Int} {k : Nat} (h : position what size (.integer i) = .ok k) :
    (k : Int) = i := by
  unfold position at h
  dsimp only at h
  split at h
  · obtain rfl := Except.ok.inj h
    omega
  · cases h

theorem Tape.target_ok {t : Tape} {i v : Int} {k : Nat} {value : Datum}
    (h : t.target (.integer i) value = .ok (k, v)) : (k : Int) = i := by
  simp only [target, cellIndex, bind, Except.bind] at h
  split at h
  · cases h
  · next j hj =>
    have hposition := position_ok hj
    split at h
    · split at h
      · cases h
        exact hposition
      · cases h
    · cases h

namespace Machine
variable {m m' : Machine} {c : Instruction} {f : Fault}

/-- All ways in which an instruction goes. Whatever fails leaves the machine alone, up to the values that have been
read; whatever is done is done to one part of the machine. -/
inductive Performs (m : Machine) : Instruction → Machine × Except Stop Unit → Prop where
  | fails (c : Instruction) (f : Fault) : Performs m c (m, .error (.fault f))
  | misreads {n : Nat} {r : Except Fault Datum} {input : Input} {journal : Array Event} {f : Fault}
      (hr : m.input.Reads m.tape.minimum m.tape.maximum n r input) :
      Performs m .read ({ m with input, journal }, .error (.fault f))
  | stalls (input : Input) (journal : Array Event) :
      Performs m .read ({ m with input, journal }, .error .unfinished)
  | goes (c : Instruction) (i d : Int) :
      Performs m c ({ m with instructionPointer := i, dataPointer := d }, .ok ())
  | sets (c : Instruction) {k : Nat} (v : Int) (input : Input) (journal : Array Event)
      (hk : (k : Int) = m.dataPointer) :
      Performs m c ({ m with input, journal, tape := m.tape.set k v }, .ok ())
  | writes (c : Instruction) (n : Int) : Performs m c ({ m with sink := m.sink.push n }, .ok ())

/-- All ways in which a value is stored. -/
theorem store_cases (m : Machine) (value : Datum) :
    (∃ f, m.store value = (m, .error (.fault f))) ∨
      ∃ (k : Nat) (v : Int), (k : Int) = m.dataPointer ∧
        m.store value = ({ m with tape := m.tape.set k v }, .ok ()) := by
  unfold store
  split
  · next f _ => exact Or.inl ⟨f, rfl⟩
  · next k v hv => exact Or.inr ⟨k, v, Tape.target_ok hv, rfl⟩

theorem update_performs (m : Machine) (c : Instruction) (g : Tape → Int → Int) :
    m.Performs c (m.update g) := by
  unfold update
  split
  · exact .fails c _
  · next v _ =>
    obtain ⟨f, hf⟩ | ⟨k, w, hk, hw⟩ := m.store_cases (.integer (g m.tape v))
    · dsimp only
      rw [hf]
      exact .fails c f
    · dsimp only
      rw [hw]
      exact .sets c w m.input m.journal hk

theorem send_performs (m : Machine) (c : Instruction) : m.Performs c m.send := by
  unfold send
  split
  · exact .fails c _
  · split
    · exact .fails c _
    · exact .writes c _

theorem jumpIf_performs (m : Machine) (c : Instruction) (d : Direction) (test : Int → Bool) :
    m.Performs c (m.jumpIf d test) := by
  unfold jumpIf
  split
  · exact .fails c _
  · split
    · split
      · exact .fails c _
      · exact .goes c _ m.dataPointer
    · exact .goes c m.instructionPointer m.dataPointer

theorem receive_performs (m : Machine) : m.Performs .read m.receive := by
  have hreads := @Input.exists_reads m.tape.minimum m.tape.maximum m.input
  unfold receive
  dsimp only
  generalize m.input.readWithin m.tape.minimum m.tape.maximum = reading at hreads ⊢
  obtain ⟨outcome, rest, discarded⟩ := reading
  cases outcome with
  | error e =>
    cases e with
    | fault f =>
      obtain ⟨n, r, -, hr, -⟩ := hreads (by simp)
      exact .misreads hr
    | unfinished => exact .stalls rest _
  | ok value =>
    obtain ⟨n, r, -, hr, -⟩ := hreads (by simp)
    let m₁ := { m with input := rest, journal := m.journal ++ (discarded.map Event.discarded).toArray }
    obtain ⟨f, hf⟩ | ⟨k, v, hk, hv⟩ := m₁.store_cases value
    · show m.Performs .read (m₁.store value)
      rw [hf]
      exact .misreads hr
    · show m.Performs .read (m₁.store value)
      rw [hv]
      exact .sets .read v rest _ hk

theorem perform_performs (m : Machine) (c : Instruction) : m.Performs c (m.perform c) := by
  cases c with
  | right => exact .goes .right m.instructionPointer _
  | left => exact .goes .left m.instructionPointer _
  | increment => exact m.update_performs _ _
  | decrement => exact m.update_performs _ _
  | read => exact m.receive_performs
  | write => exact m.send_performs _
  | loopOpen => exact m.jumpIf_performs _ _ _
  | loopClose => exact m.jumpIf_performs _ _ _

/-- A machine as it was before, up to the values that an instruction has read. -/
structure Unmoved (m m' : Machine) : Prop where
  program : m'.program = m.program
  maxSteps : m'.maxSteps = m.maxSteps
  instructionPointer : m'.instructionPointer = m.instructionPointer
  dataPointer : m'.dataPointer = m.dataPointer
  steps : m'.steps = m.steps
  tape : m'.tape = m.tape
  sink : m'.sink = m.sink
  input : m'.input = m.input ∨
    m.program.instructionAt (.integer m.instructionPointer) = .ok .read ∧
      ∃ n r, m.input.Reads m.tape.minimum m.tape.maximum n r m'.input ∧
        m'.input = { m.input with pending := m.input.pending.drop n }

/-- A machine behind one more instruction, which has changed the current cell at most and written one value at
most. -/
structure Moved (m m' : Machine) : Prop where
  steps : m'.steps = m.steps + 1
  size : m'.tape.size = m.tape.size
  cells : ∀ k : Nat, (k : Int) ≠ m.dataPointer → m'.tape.cells[k]? = m.tape.cells[k]?
  sink : m'.sink = m.sink ∨ ∃ n, m'.sink = m.sink.push n

theorem Unmoved.refl (m : Machine) : m.Unmoved m :=
  ⟨rfl, rfl, rfl, rfl, rfl, rfl, rfl, Or.inl rfl⟩

theorem Performs.unmoved (h : m.Performs c (m', .error (.fault f)))
    (hc : m.program.instructionAt (.integer m.instructionPointer) = .ok c) : m.Unmoved m' := by
  cases h with
  | fails => exact .refl m
  | misreads hr => exact ⟨rfl, rfl, rfl, rfl, rfl, rfl, rfl, Or.inr ⟨hc, _, _, hr, hr.rest_eq⟩⟩

theorem Performs.moved (h : m.Performs c (m', .ok ())) : m.Moved m'.advance := by
  cases h with
  | goes => exact ⟨rfl, rfl, fun _ _ => rfl, Or.inl rfl⟩
  | sets _ v input journal hk =>
    refine ⟨rfl, Tape.set_size _ _ _, ?_, Or.inl rfl⟩
    intro j hj
    exact Array.getElem?_setIfInBounds_ne (by omega)
  | writes _ n => exact ⟨rfl, rfl, fun _ _ => rfl, Or.inr ⟨n, rfl⟩⟩

/-- A cycle is atomic: it fails and leaves the machine as it was, up to the values that it has read, or it
succeeds and counts one step, with one cell changed and one value written at most. -/
theorem cycle_atomic (m : Machine) :
    (∀ m' f, m.cycle = (m', .error (.fault f)) → m.Unmoved m') ∧
      ∀ m' c, m.cycle = (m', .ok c) → m.Moved m' := by
  constructor
  · intro m' f h
    obtain ⟨-, hcycle⟩ | ⟨-, ⟨f, -, hcycle⟩ | ⟨c, m₁, r, hc, hp, ⟨-, hcycle⟩ | ⟨e, rfl, hcycle⟩⟩⟩ := m.cycle_cases
    · cases h.symm.trans hcycle
      exact .refl m
    · cases h.symm.trans hcycle
      exact .refl m
    · cases h.symm.trans hcycle
    · cases h.symm.trans hcycle
      have hperform := m.perform_performs c
      rw [hp] at hperform
      exact hperform.unmoved hc
  · intro m' c h
    obtain ⟨-, hcycle⟩ | ⟨-, ⟨f, -, hcycle⟩ | ⟨c, m₁, r, -, hp, ⟨rfl, hcycle⟩ | ⟨e, -, hcycle⟩⟩⟩ := m.cycle_cases
    · cases h.symm.trans hcycle
    · cases h.symm.trans hcycle
    · cases h.symm.trans hcycle
      have hperform := m.perform_performs c
      rw [hp] at hperform
      exact hperform.moved
    · cases h.symm.trans hcycle

/-- A machine that reads past a value that is too great and then finds nothing. -/
def starving : Machine where
  program := ⟨",", #[.read]⟩
  tape := ⟨0, 255, 0, #[7]⟩
  input := ⟨[.integer 300], .exhausted⟩
  sink := .empty .buffer

def satisfied : Machine :=
  { starving with input := ⟨[.integer 300, .integer 5], .exhausted⟩ }

theorem cycle_atomic_starving :
    (∃ m', starving.cycle = (m', .error (.fault .inputExhausted)) ∧ starving.Unmoved m' ∧
        m'.input.pending = []) ∧
      ∃ m', satisfied.cycle = (m', .ok .read) ∧ satisfied.Moved m' :=
  ⟨⟨_, rfl, starving.cycle_atomic.1 _ _ rfl, rfl⟩, ⟨_, rfl, satisfied.cycle_atomic.2 _ _ rfl⟩⟩

end Machine

end Brainfuck
