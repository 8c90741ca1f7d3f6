import Brainfuck.Proofs.Cycle

/-! Failures by their kinds: of tapes and programs that are refused, and of cycles. Whatever the input, a cycle
does not fail in the way in which a spent stepper does. -/
namespace Brainfuck

theorem position_kind {what : String} {size : Int} {given : Datum} {f : Fault}
    (h : position what size given = .error f) : f.kind = .indexOutOfBounds := by
  unfold position at h
  split at h
  · split at h
    · cases h
    · obtain rfl := Except.error.inj h
      rfl
  · obtain rfl := Except.error.inj h
    rfl

theorem Tape.checkRoom_kind {room : Room} {size : Int} {f : Fault} (h : checkRoom room size = .error f) :
    f.kind = .overflow ∨ f.kind = .outOfMemory := by
  unfold checkRoom at h
  split at h
  · obtain rfl := Except.error.inj h
    exact Or.inl rfl
  · split at h
    · obtain rfl := Except.error.inj h
      exact Or.inr rfl
    · cases h

/-- What comes of a tape whose dimensions are given. -/
theorem Tape.blank_eq (size minimum maximum : Int) (room : Room) :
    blank { size := .ok size, minimum := .ok minimum, maximum := .ok maximum } room =
      if size ≤ 0 then .error (.invalidSize size)
      else if maximum < minimum then .error (.emptyRange minimum maximum)
      else if 0 < minimum ∨ maximum < 0 then .error (.defaultOutOfRange 0 minimum maximum)
      else (checkRoom room size).map fun _ => ⟨minimum, maximum, 0, Array.replicate size.toNat 0⟩ := by
  simp only [blank, bind, Except.bind, pure, Except.pure, throw, throwThe, MonadExceptOf.throw]
  cases checkRoom room size with
  | error f => rfl
  | ok u => rfl

/-- If nothing is wrong with its dimensions and there is room for it, there is a tape. -/
theorem Tape.blank_of_room {size minimum maximum : Int} {room : Room} (hsize : 0 < size)
    (hrange : minimum ≤ 0 ∧ 0 ≤ maximum) (hroom : size ≤ room.cells) :
    blank { size := .ok size, minimum := .ok minimum, maximum := .ok maximum } room =
      .ok ⟨minimum, maximum, 0, Array.replicate size.toNat 0⟩ := by
  have hle := room.cells_le
  have hcheck : checkRoom room size = .ok () := by
    rw [checkRoom, if_neg (by omega), if_neg (by omega)]
  rw [blank_eq, if_neg (by omega), if_neg (by omega), if_neg (by omega), hcheck]
  rfl

/-- The tape that there is if nothing is said about it. -/
theorem Tape.blank_standard {room : Room} (hroom : 30000 ≤ room.cells) :
    blank {} room = .ok ⟨0, 255, 0, Array.replicate 30000 0⟩ :=
  blank_of_room (by decide) (by decide) hroom

theorem Tape.blank_kind {size minimum maximum : Int} {room : Room} {f : Fault}
    (h : blank { size := .ok size, minimum := .ok minimum, maximum := .ok maximum } room = .error f) :
    f.kind = .invalidConfiguration ∨ f.kind = .overflow ∨ f.kind = .outOfMemory := by
  rw [blank_eq] at h
  split_ifs at h
  · obtain rfl := Except.error.inj h
    exact Or.inl rfl
  · obtain rfl := Except.error.inj h
    exact Or.inl rfl
  · obtain rfl := Except.error.inj h
    exact Or.inl rfl
  · cases hroom : checkRoom room size with
    | error g =>
      rw [hroom] at h
      obtain rfl := Except.error.inj h
      exact Or.inr (checkRoom_kind hroom)
    | ok u =>
      rw [hroom] at h
      cases h

theorem Tape.read_kind {t : Tape} {index : Datum} {f : Fault} (h : t.read index = .error f) :
    f.kind = .indexOutOfBounds := by
  simp only [Tape.read, cellIndex, bind, Except.bind, pure, Except.pure] at h
  split at h
  · next hf =>
    obtain rfl := Except.error.inj h
    exact position_kind hf
  · cases h

theorem Tape.target_kind {t : Tape} {index value : Datum} {f : Fault}
    (h : t.target index value = .error f) : f.kind = .indexOutOfBounds ∨ f.kind = .valueOutOfRange := by
  simp only [target, cellIndex, bind, Except.bind, pure, Except.pure, throw, throwThe,
    MonadExceptOf.throw] at h
  split at h
  · next hf =>
    obtain rfl := Except.error.inj h
    exact Or.inl (position_kind hf)
  · split at h
    · split at h
      · cases h
      · obtain rfl := Except.error.inj h
        exact Or.inr rfl
    · obtain rfl := Except.error.inj h
      exact Or.inr rfl

theorem Ending.value_kind {ending : Ending} {f : Fault} (h : ending.value = .error f) :
    f.kind = .endOfInput := by
  cases ending with
  | repeats v => cases h
  | exhausted => cases h; rfl
  | ended => cases h; rfl

theorem Input.seek_kind {lo hi : Int} {ending : Ending} {vs : List Datum} {f : Fault}
    (h : (seek lo hi ending vs).outcome = .error (.fault f)) :
    f.kind = .endOfInput ∨ f.kind = .invalidType := by
  induction vs with
  | nil =>
    simp only [seek] at h
    split at h
    · next hf =>
      cases h
      exact Or.inl (Ending.value_kind hf)
    · split at h
      · cases h
      · cases h
      · cases h
        exact Or.inr rfl
  | cons v vs ih =>
    simp only [seek] at h
    split at h
    · cases h
    · exact ih h
    · cases h
      exact Or.inr rfl

theorem Sink.accept_kind {kind : Kind} {value : Datum} {f : Fault} (h : accept kind value = .error f) :
    f.kind = .valueOutOfRange ∨ f.kind = .invalidType := by
  have hinteger : integerOf value = .error f → f.kind = .invalidType := by
    intro h
    unfold integerOf at h
    split at h
    · cases h
    · cases h
    · cases h
      rfl
  unfold accept at h
  split at h
  · exact Or.inr (hinteger h)
  · split at h
    · cases h
      exact Or.inr rfl
    · cases h
      exact Or.inl rfl
    · exact Or.inr (hinteger h)

namespace Program
variable {p : Program} {f : Fault}

theorem instructionAt_kind {index : Datum} (h : p.instructionAt index = .error f) :
    f.kind = .indexOutOfBounds := by
  simp only [instructionAt, bind, Except.bind, pure, Except.pure] at h
  split at h
  · next hf =>
    obtain rfl := Except.error.inj h
    exact position_kind hf
  · cases h

theorem validate_kind (h : p.validate = .error f) : f.kind = .invalidProgram :=
  validate_error_kind h

theorem walk_kind {d : Direction} {fuel depth : Nat} {i : Int} (h : p.walk d fuel depth i = .error f) :
    f.kind = .indexOutOfBounds := by
  induction fuel generalizing depth i with
  | zero =>
    cases h
    rfl
  | succ fuel ih =>
    unfold walk at h
    split at h
    · next hf =>
      obtain rfl := Except.error.inj h
      exact instructionAt_kind hf
    · split at h
      · cases h
      · exact ih h

theorem jumpDistance_kind {d : Direction} {i : Int} (h : p.jumpDistance i d = .error f) :
    f.kind = .indexOutOfBounds := by
  unfold jumpDistance at h
  cases hw : p.walk d (p.size + 1) 1 (i + d.sign) with
  | error e =>
    rw [hw] at h
    cases h
    exact walk_kind hw
  | ok j =>
    rw [hw] at h
    cases h

end Program

namespace Machine

def failureKinds : List Fault.Kind :=
  [.indexOutOfBounds, .valueOutOfRange, .stepLimitExceeded, .endOfInput, .invalidType]

variable {m m' : Machine} {f : Fault}

theorem start_kind {program : Program} {tape : Tape} {input : Input} {sink : Sink} {limit : Option Int}
    (h : start program tape input sink limit = .error f) : f.kind = .invalidConfiguration := by
  unfold start at h
  split at h
  · split at h
    · obtain rfl := Except.error.inj h
      rfl
    · cases h
  · cases h

theorem store_kind {v : Datum} (h : (m.store v).2 = .error (.fault f)) : f.kind ∈ failureKinds := by
  unfold store at h
  split at h
  · next hf =>
    cases h
    obtain hk | hk := Tape.target_kind hf <;> simp [failureKinds, hk]
  · cases h

theorem current_kind (h : m.current = .error f) : f.kind ∈ failureKinds := by
  simp [failureKinds, Tape.read_kind h]

theorem update_kind {g : Tape → Int → Int} (h : (m.update g).2 = .error (.fault f)) :
    f.kind ∈ failureKinds := by
  unfold update at h
  split at h
  · next hf =>
    cases h
    exact current_kind hf
  · exact store_kind h

theorem jumpIf_kind {d : Direction} {test : Int → Bool} (h : (m.jumpIf d test).2 = .error (.fault f)) :
    f.kind ∈ failureKinds := by
  unfold jumpIf at h
  split at h
  · next hf =>
    cases h
    exact current_kind hf
  · split at h
    · split at h
      · next hf =>
        cases h
        simp [failureKinds, Program.jumpDistance_kind hf]
      · cases h
    · cases h

theorem receive_kind (h : m.receive.2 = .error (.fault f)) : f.kind ∈ failureKinds := by
  unfold receive at h
  dsimp only at h
  split at h
  · next he =>
    cases h
    obtain hk | hk := Input.seek_kind he <;> simp [failureKinds, hk]
  · exact store_kind h

theorem send_kind (h : m.send.2 = .error (.fault f)) : f.kind ∈ failureKinds := by
  unfold send at h
  split at h
  · next hf =>
    cases h
    exact current_kind hf
  · split at h
    · next hf =>
      cases h
      obtain hk | hk := Sink.accept_kind hf <;> simp [failureKinds, hk]
    · cases h

theorem perform_kind {c : Instruction} (h : (m.perform c).2 = .error (.fault f)) :
    f.kind ∈ failureKinds := by
  cases c with
  | right => cases h
  | left => cases h
  | increment => exact update_kind h
  | decrement => exact update_kind h
  | read => exact receive_kind h
  | write => exact send_kind h
  | loopOpen => exact jumpIf_kind h
  | loopClose => exact jumpIf_kind h

/-- Only a token that is no instruction cannot be carried out. -/
theorem dispatch_eq_invalidInstruction_iff {token : Token} {value : Datum} :
    (m.dispatch token).2 = .error (.fault (.invalidInstruction value)) ↔ token = .other value := by
  cases token with
  | instruction c =>
    constructor
    · intro h
      have hkind := perform_kind h
      simp [failureKinds, Fault.kind] at hkind
    · intro h
      cases h
  | other v => simp [dispatch]

/-- A text that stands for no instruction is refused as the token that it is. -/
theorem dispatch_ofText?_ne {text : Option String} (h : ∀ c : Instruction, text ≠ some c.toString) :
    m.dispatch (.ofText? text) = (m, .error (.fault (.invalidInstruction .null))) := by
  unfold Token.ofText?
  split
  · next c hc =>
    obtain ⟨s, rfl, hs⟩ := Option.bind_eq_some_iff.mp hc
    exact absurd (congrArg some (Instruction.ofString?_eq_some.mp hs)) (h c)
  · rfl

/-- Every failure of a cycle is of one of these kinds. -/
theorem cycle_kind (h : m.cycle = (m', .error (.fault f))) : f.kind ∈ failureKinds := by
  obtain ⟨-, he | ⟨f', hi, he⟩⟩ | ⟨-, c, -, hp⟩ := cycle_error_cases h
  · cases he
    simp [failureKinds, Fault.kind]
  · cases he
    simp [failureKinds, Program.instructionAt_kind hi]
  · exact perform_kind (congrArg Prod.snd hp)

theorem cycle_ne_exhausted (m : Machine) : m.cycle.2 ≠ .error (.fault .stepperExhausted) := by
  intro h
  have hkind := cycle_kind (m := m) (Prod.ext rfl h)
  simp [failureKinds, Fault.kind] at hkind

end Machine

end Brainfuck
