import Brainfuck.Proofs.Stepper

/-! Safe machines. A cycle inside a checked program leads from a safe machine to a safe one, or fails for the
step limit, for want of input, or at a cell that is no byte. So do runs and the steps of steppers. -/
namespace Brainfuck

namespace Machine

structure Safe (m : Machine) : Prop where
  workspace : m.workspace.Valid
  position_nonneg : 0 ≤ m.instructionPointer
  position_le : m.instructionPointer ≤ m.program.size
  steps_le : ∀ n, m.maxSteps = some n → m.steps ≤ n

/-- Why the next instruction of a machine fails: no step is left, or nothing that fits is left to read, or
the cell to be written is no byte. -/
inductive Blocked (m : Machine) : Stop → Prop where
  | limit (hl : m.limitReached = true) : Blocked m (.fault .stepLimit)
  | input {e : Stop} (hc : m.program.instructionAt (.integer m.instructionPointer) = .ok .read)
      (he : m.input.ending.within m.tape.minimum m.tape.maximum = .error e) : Blocked m e
  | output {v : Int} (hc : m.program.instructionAt (.integer m.instructionPointer) = .ok .write)
      (hv : m.current = .ok v) (hbyte : ¬ (0 ≤ v ∧ v ≤ 255)) : Blocked m (.fault (.notAByte (.integer v)))

structure SafeWith (m : Machine) {α : Type} (r : Except Stop α) : Prop where
  safe : m.Safe
  blocked : ∀ f, r = .error (.fault f) → m.Blocked (.fault f)

/-- A machine that its next cycle leaves safe, and blocked if it fails. -/
structure CyclesSafely (m : Machine) : Prop where
  safe : m.cycle.1.Safe
  blocked : ∀ e, m.cycle.2 = .error e → m.cycle.1.Blocked e

variable {m m' : Machine} {α : Type} {r : Except Stop α}

theorem start_ok {program : Program} {tape : Tape} {input : Input} {sink : Sink} {limit : Option Int}
    (h : start program tape input sink limit = .ok m) :
    m = { program, tape, input, sink, maxSteps := limit } ∧ ∀ n, limit = some n → 0 ≤ n := by
  unfold start at h
  split at h
  · split at h
    · cases h
    · next n hn =>
      refine ⟨(Except.ok.inj h).symm, ?_⟩
      rintro k ⟨⟩
      exact Int.not_lt.mp hn
  · exact ⟨(Except.ok.inj h).symm, fun k hk => by cases hk⟩

theorem Safe.of_start {program : Program} {tape : Tape} {input : Input} {sink : Sink}
    {limit : Option Int} (ht : tape.Valid) (hi : input.Integral)
    (h : start program tape input sink limit = .ok m) : m.Safe := by
  have hpos : (0 : Int) < tape.size := Int.natCast_pos.mpr ht.size_pos
  obtain ⟨rfl, hlimit⟩ := start_ok h
  exact ⟨⟨ht, Int.le_refl _, hpos, hi⟩, Int.le_refl _, Int.natCast_nonneg _, hlimit⟩

theorem Safe.record (h : m.Safe) (e : Event) : (m.record e).Safe :=
  ⟨h.workspace, h.position_nonneg, h.position_le, h.steps_le⟩

theorem Safe.current_between (h : m.Safe) {v : Int} (hv : m.current = .ok v) :
    m.tape.minimum ≤ v ∧ v ≤ m.tape.maximum := by
  obtain rfl := Except.ok.inj ((current_ok h.workspace).symm.trans hv)
  exact h.workspace.current_between

theorem steps_lt_of_not_limitReached (hl : m.limitReached = false) {n : Int} (hn : m.maxSteps = some n) :
    m.steps < n := by
  simpa [limitReached, hn] using hl

/-- A cycle behind which workspace, pointer and steps are within their bounds reaches a safe machine. -/
theorem CyclesSafely.of_cycle {r : Except Stop Instruction} (hc : m.cycle = (m', r))
    (hv : m'.workspace.Valid)
    (hi : 0 ≤ m'.instructionPointer ∧ m'.instructionPointer ≤ m.program.size)
    (hn : ∀ n, m.maxSteps = some n → m'.workspace.steps ≤ n)
    (hb : ∀ e, r = .error e → m'.Blocked e) : m.CyclesSafely := by
  have hsettings := SameSettings.of_cycle hc
  have hle : m'.instructionPointer ≤ m'.program.size := by
    rw [hsettings.program]
    exact hi.2
  have hsteps : ∀ n, m'.maxSteps = some n → m'.steps ≤ n := by
    intro n hlimit
    exact hn n (hsettings.maxSteps.symm.trans hlimit)
  constructor
  · rw [hc]
    exact ⟨hv, hi.1, hle, hsteps⟩
  · rw [hc]
    exact hb

section Cycle
variable (h : m.Safe) (hl : m.limitReached = false)
include h hl

theorem Safe.cycle_action {a : Action}
    (hc : m.program.instructionAt (.integer m.instructionPointer) = .ok a.instruction) :
    m.CyclesSafely := by
  have hsteps := Workspace.perform_steps a m.workspace
  have hinside := Program.instructionAt_ok hc
  rcases ha : a.perform m.workspace with ⟨t, e | u⟩
  · have hvalid := h.workspace.of_perform ha
    rw [ha] at hsteps
    obtain ⟨m', hcycle, rfl, hi⟩ := cycle_action_error h.workspace hl hc ha
    have hprogram := (SameSettings.of_cycle hcycle).program
    have hsame : m'.program.instructionAt (.integer m'.instructionPointer) = .ok a.instruction := by
      rw [hprogram, hi, hc]
    have hbounds : 0 ≤ m'.instructionPointer ∧ m'.instructionPointer ≤ m.program.size := by
      omega
    refine .of_cycle hcycle hvalid hbounds ?_ ?_
    · intro n hn
      rw [hsteps]
      exact h.steps_le n hn
    · intro e' he'
      obtain rfl := Except.error.inj he'
      obtain ⟨rfl, he⟩ | ⟨rfl, hworkspace, rfl, hbyte⟩ := Workspace.perform_error ha
      · exact .input hsame he
      · have hcurrent := current_ok hvalid
        rw [hworkspace] at hcurrent
        exact .output hsame hcurrent hbyte
  · have hvalid := h.workspace.of_perform ha
    rw [ha] at hsteps
    obtain ⟨m', hcycle, hworkspace, hi⟩ := cycle_action_ok h.workspace hl hc ha
    have hbounds : 0 ≤ m'.instructionPointer ∧ m'.instructionPointer ≤ m.program.size := by
      omega
    refine .of_cycle hcycle ?_ hbounds ?_ nofun
    · rw [hworkspace]
      exact hvalid.tick
    · intro n hn
      have hlt : m.workspace.steps < n := steps_lt_of_not_limitReached hl hn
      rw [hworkspace, Workspace.tick, hsteps]
      exact hlt

/-- The brackets of a checked program are those of loops, so that a jump stays inside. -/
theorem Safe.cycle_bracket {c : Instruction} (hv : m.program.validate = .ok ())
    (hc : m.program.instructionAt (.integer m.instructionPointer) = .ok c)
    (hbracket : c = .loopOpen ∨ c = .loopClose) :
    m.CyclesSafely := by
  obtain ⟨j, body, tail, hloop, hj⟩ := Program.exists_loop_at hv hc hbracket
  obtain ⟨m', c', hcycle, hworkspace, hi⟩ := cycle_test h.workspace hl hloop hj
  have hopen := (Program.instructionAt_ok hloop.head).1
  have hclose := (Program.instructionAt_ok hloop.tail.right.head).2
  refine .of_cycle hcycle ?_ ?_ ?_ nofun
  · rw [hworkspace]
    exact h.workspace.tick
  · rw [hi]
    split <;> omega
  · intro n hn
    have hlt : m.workspace.steps < n := steps_lt_of_not_limitReached hl hn
    rw [hworkspace]
    exact hlt

end Cycle

/-- A cycle inside a checked program leaves the machine safe, and blocked where it fails. -/
theorem Safe.cycle (h : m.Safe) (hv : m.program.validate = .ok ()) (hm : m.halted = false) :
    m.CyclesSafely := by
  cases hl : m.limitReached with
  | true =>
    have hcycle := cycle_of_limitReached hl
    refine .of_cycle hcycle h.workspace ⟨h.position_nonneg, h.position_le⟩ h.steps_le ?_
    rintro e ⟨⟩
    exact .limit hl
  | false =>
    have hinside : m.instructionPointer < m.program.size := by simpa [halted] using hm
    obtain ⟨c, hc⟩ := Program.exists_instructionAt h.position_nonneg hinside
    obtain ⟨a, rfl⟩ | hbracket := c.action_or_bracket
    · exact h.cycle_action hl hc
    · exact h.cycle_bracket hl hv hc hbracket

theorem Safe.of_cycle_ok {c : Instruction} (h : m.Safe) (hv : m.program.validate = .ok ())
    (hc : m.cycle = (m', .ok c)) : m'.Safe := by
  have hsafe := (h.cycle hv (not_halted_of_cycle_ok hc)).safe
  rwa [hc] at hsafe

theorem Safe.of_cycle_error {e : Stop} (h : m.Safe) (hv : m.program.validate = .ok ())
    (hm : m.halted = false) (hc : m.cycle = (m', .error e)) : m'.Safe ∧ m'.Blocked e := by
  obtain ⟨hsafe, hblocked⟩ := h.cycle hv hm
  rw [hc] at hsafe hblocked
  exact ⟨hsafe, hblocked e rfl⟩

/-- Without a fault there is nothing to be blocked by. -/
theorem Safe.withoutFault (h : m.Safe) (hr : ∀ f, r ≠ .error (.fault f)) : m.SafeWith r :=
  ⟨h, fun f hf => absurd hf (hr f)⟩

theorem SafeWith.of_cycle_error {e : Stop} (h : m.Safe) (hv : m.program.validate = .ok ())
    (hm : m.halted = false) (hc : m.cycle = (m', .error e)) :
    m'.SafeWith (.error e : Except Stop α) := by
  obtain ⟨hsafe, hblocked⟩ := h.of_cycle_error hv hm hc
  refine ⟨hsafe, ?_⟩
  intro f hf
  obtain rfl := Except.error.inj hf
  exact hblocked

/-- Cycles lead from safe machines to safe machines. -/
theorem Safe.after (h : m.Safe) (hv : m.program.validate = .ok ()) {n : Nat} (hn : m.after n = some m') :
    m'.Safe := by
  induction n generalizing m with
  | zero =>
    obtain rfl := Option.some.inj hn
    exact h
  | succ n ih =>
    obtain ⟨m₁, c, hc, hn⟩ := exists_cycle_of_after_succ hn
    exact ih (h.of_cycle_ok hv hc) ((SameSettings.of_cycle hc).validate hv) hn

theorem Safe.loop (h : m.Safe) (hv : m.program.validate = .ok ()) (fuel : Nat) :
    (loop fuel m).1.SafeWith (loop fuel m).2 := by
  induction fuel generalizing m with
  | zero =>
    unfold Machine.loop
    split
    · exact h.withoutFault (by simp)
    · exact h.withoutFault (by simp)
  | succ fuel ih =>
    unfold Machine.loop
    split
    · exact h.withoutFault (by simp)
    · next hm =>
      have hm : m.halted = false := by simpa using hm
      split
      · next he => exact .of_cycle_error h hv hm he
      · next hc =>
        have hsafe := h.of_cycle_ok hv hc
        have hvalid := (SameSettings.of_cycle hc).validate hv
        exact ih hsafe hvalid

theorem Safe.run (h : m.Safe) (hv : m.program.validate = .ok ()) (fuel : Nat) :
    (m.run fuel).1.SafeWith (m.run fuel).2 := by
  have hentered : m.entered.Safe := h.record _
  have hloop := hentered.loop hv fuel
  rw [run_of_valid hv]
  rcases hl : Machine.loop fuel m.entered with ⟨m', e | u⟩
  · rw [hl] at hloop
    exact hloop
  · rw [hl] at hloop
    have hleft : (m'.record (.finished m'.steps)).Safe := hloop.safe.record _
    exact hleft.withoutFault (by simp [leave])

end Machine

/-- A step of a stepper reaches a safe machine, as the cycle does that it consists of. -/
theorem Machine.Safe.stepper {m : Machine} (h : m.Safe) (hv : m.program.validate = .ok ())
    {s : Stepper} {reach : Int} (hr : s.reach = .ok reach) :
    (s.advance m).machine.SafeWith (s.advance m).shown := by
  cases hm : m.halted with
  | true =>
    rw [Stepper.advance_of_halted hr hm]
    exact h.withoutFault (by simp)
  | false =>
    rcases hc : m.cycle with ⟨m', e | c⟩
    · rw [Stepper.advance_of_error hm hc]
      exact .of_cycle_error h hv hm hc
    · have hsafe := h.of_cycle_ok hv hc
      rw [Stepper.advance_of_ok hr hc]
      exact hsafe.withoutFault (by simp)

end Brainfuck
