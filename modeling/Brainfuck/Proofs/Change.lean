import Brainfuck.Proofs.Cycle

/-! Changes of machines. A change that makes no difference to what an instruction looks at, and that what the instruction
does leaves alone, makes none to the instruction, and so none to the cycle. -/
namespace Brainfuck.Machine
variable {g : Machine → Machine} {m : Machine}

theorem store_changed (htape : (g m).tape = m.tape) (hpointer : (g m).dataPointer = m.dataPointer)
    (hset : ∀ tape, { g m with tape } = g { m with tape }) (v : Datum) :
    (g m).store v = (g (m.store v).1, (m.store v).2) := by
  have htarget : (g m).tape.target (.integer (g m).dataPointer) v = m.tape.target (.integer m.dataPointer) v := by
    rw [htape, hpointer]
  unfold store
  rw [htarget, htape]
  cases m.tape.target (.integer m.dataPointer) v with
  | error f => rfl
  | ok target => exact Prod.ext (hset _) rfl

theorem update_changed {f : Tape → Int → Int} (hcurrent : (g m).current = m.current) (hf : f (g m).tape = f m.tape)
    (hstore : ∀ v, m.current = .ok v → (g m).store (.integer (f m.tape v)) =
      (g (m.store (.integer (f m.tape v))).1, (m.store (.integer (f m.tape v))).2)) :
    (g m).update f = (g (m.update f).1, (m.update f).2) := by
  unfold update
  rw [hcurrent, hf]
  cases hv : m.current with
  | error e => rfl
  | ok v => exact hstore v hv

/-- A change that makes no difference to what is read makes none to a read if it makes none to storing what is read. -/
theorem receive_changed
    (hread : (g m).input.readWithin (g m).tape.minimum (g m).tape.maximum =
      m.input.readWithin m.tape.minimum m.tape.maximum)
    (hnoted : ∀ input events, { g m with input, journal := (g m).journal ++ events } =
      g { m with input, journal := m.journal ++ events })
    (hstore : ∀ v x, (m.input.readWithin m.tape.minimum m.tape.maximum).outcome = .ok v →
      (∃ journal, x = { m with input := (m.input.readWithin m.tape.minimum m.tape.maximum).rest, journal }) →
        (g x).store v = (g (x.store v).1, (x.store v).2)) :
    (g m).receive = (g m.receive.1, m.receive.2) := by
  unfold receive
  rw [hread]
  dsimp only
  rw [hnoted]
  cases houtcome : (m.input.readWithin m.tape.minimum m.tape.maximum).outcome with
  | error e => rfl
  | ok v => exact hstore v _ houtcome ⟨_, rfl⟩

theorem send_changed (hcurrent : (g m).current = m.current)
    (haccept : ∀ v, Sink.accept (g m).sink.kind v = Sink.accept m.sink.kind v)
    (hpush : ∀ n, { g m with sink := (g m).sink.push n } = g { m with sink := m.sink.push n }) :
    (g m).send = (g m.send.1, m.send.2) := by
  unfold send
  rw [hcurrent]
  cases m.current with
  | error e => rfl
  | ok v =>
    dsimp only
    rw [haccept]
    cases Sink.accept m.sink.kind (.integer v) with
    | error f => rfl
    | ok n => exact Prod.ext (hpush n) rfl

theorem jumpIf_changed (hcurrent : (g m).current = m.current) (hprogram : (g m).program = m.program)
    (hpointer : (g m).instructionPointer = m.instructionPointer)
    (hjump : ∀ i, { g m with instructionPointer := i } = g { m with instructionPointer := i }) (d : Direction)
    (test : Int → Bool) : (g m).jumpIf d test = (g (m.jumpIf d test).1, (m.jumpIf d test).2) := by
  unfold jumpIf
  simp only [hcurrent, hprogram, hpointer] at hjump ⊢
  cases m.current with
  | error e => rfl
  | ok v =>
    dsimp only
    split
    · cases m.program.jumpDistance m.instructionPointer d with
      | error f => rfl
      | ok distance => exact Prod.ext (hjump _) rfl
    · rfl

/-- A change that makes no difference to the next instruction makes none to the cycle. -/
theorem cycle_changed (hlimit : (g m).limitReached = m.limitReached) (hprogram : (g m).program = m.program)
    (hpointer : (g m).instructionPointer = m.instructionPointer) (hadvance : ∀ m, (g m).advance = g m.advance)
    (hperform : ∀ c, m.limitReached = false →
      m.program.instructionAt (.integer m.instructionPointer) = .ok c →
        (g m).perform c = (g (m.perform c).1, (m.perform c).2)) :
    (g m).cycle = (g m.cycle.1, m.cycle.2) := by
  obtain ⟨hl, hc⟩ | ⟨hl, ⟨f, hi, hc⟩ | ⟨c, m', r, hi, hp, hr⟩⟩ := m.cycle_cases
  · rw [hc]
    exact cycle_of_limitReached (hlimit.trans hl)
  · rw [hc]
    exact cycle_of_fault (hlimit.trans hl) (by rw [hprogram, hpointer, hi])
  · have hinstruction : (g m).program.instructionAt (.integer (g m).instructionPointer) = .ok c := by
      rw [hprogram, hpointer, hi]
    have hchanged := hperform c hl hi
    rw [hp] at hchanged
    obtain ⟨rfl, hc⟩ | ⟨e, rfl, hc⟩ := hr
    · rw [hc, cycle_of_ok (hlimit.trans hl) hinstruction hchanged, hadvance]
    · rw [hc, cycle_of_error (hlimit.trans hl) hinstruction hchanged]

end Brainfuck.Machine
