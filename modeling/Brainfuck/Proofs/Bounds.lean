import Brainfuck.Proofs.Pool
import Brainfuck.Proofs.Safety

/-! Bounds. Whatever is asked of a machine and its steppers, it stays within its bounds, and a checked
program stops early only for the step limit, for want of input, or at a cell that is no byte. -/
namespace Brainfuck

namespace Pool
variable {m : Machine} {q : Pool}

/-- A pool of a machine that was `m` at first and has a checked program. -/
structure Sound (m : Machine) (q : Pool) : Prop where
  settings : m.SameSettings q.machine
  safe : q.machine.Safe
  told : q.Told

/-- A pool of a machine that has been left alone because its program is invalid. -/
structure Idle (m : Machine) (q : Pool) : Prop where
  machine : q.machine = m
  steppers : ∀ s ∈ q.steppers, s.phase ≠ .walking

theorem Sound.call (h : q.Sound m) (hv : m.program.validate = .ok ()) (c : Call) :
    (q.call c).1.Sound m ∧ ∀ f, (q.call c).2 = .raised (.fault f) →
      (f = .stepperExhausted ∧ ∃ i, c = .next i) ∨ (q.call c).1.machine.Blocked (.fault f) := by
  have hvalid := h.settings.validate hv
  have hsettings := h.settings.trans (q.call_sameSettings c)
  have htold := h.told.call c
  cases c with
  | run fuel =>
    have hrun := h.safe.run hvalid fuel
    refine ⟨⟨hsettings, hrun.safe, htold⟩, ?_⟩
    intro f hf
    exact Or.inr (hrun.blocked f (Reply.ofRun_raised hf))
  | make reach => exact ⟨⟨hsettings, h.safe, htold⟩, nofun⟩
  | next i =>
    cases hs : q.steppers[i]? with
    | none =>
      rw [call_next_none hs]
      exact ⟨h, nofun⟩
    | some s =>
      obtain ⟨reach, hr⟩ := h.told s (List.mem_of_getElem? hs)
      rw [call_next hs] at hsettings htold ⊢
      by_cases hspent : s.phase = .spent
      · rw [Stepper.next_of_spent hspent] at hsettings htold ⊢
        refine ⟨⟨hsettings, h.safe, htold⟩, ?_⟩
        rintro f ⟨⟩
        exact Or.inl ⟨rfl, i, rfl⟩
      · have hstep := h.safe.stepper hvalid hr
        rw [Stepper.next_of_live hspent hvalid] at hsettings htold ⊢
        refine ⟨⟨hsettings, hstep.safe, htold⟩, ?_⟩
        intro f hf
        exact Or.inr (hstep.blocked f (Reply.ofStep_raised hf))

theorem Idle.call {e : Fault} (h : q.Idle m) (hv : m.program.validate = .error e) (c : Call) :
    (q.call c).1.Idle m ∧ ∀ f, (q.call c).2 = .raised (.fault f) →
      (f = .stepperExhausted ∧ ∃ i, c = .next i) ∨ f = e := by
  obtain ⟨rfl, hphases⟩ := h
  cases c with
  | run fuel =>
    simp only [Pool.call, Machine.run_of_invalid hv]
    refine ⟨⟨rfl, hphases⟩, ?_⟩
    rintro f ⟨⟩
    exact Or.inr rfl
  | make reach =>
    refine ⟨⟨rfl, ?_⟩, fun f hf => by cases hf⟩
    intro s hs
    obtain hs | hs := List.mem_append.mp hs
    · exact hphases s hs
    · obtain rfl := List.mem_singleton.mp hs
      exact fun hp => by cases hp
  | next i =>
    cases hs : q.steppers[i]? with
    | none =>
      rw [call_next_none hs]
      exact ⟨⟨rfl, hphases⟩, fun f hf => by cases hf⟩
    | some s =>
      have hsteppers : ∀ t : Stepper, t.phase = .spent → ∀ u ∈ q.steppers.set i t, u.phase ≠ .walking := by
        intro t ht u hu
        obtain hu | rfl := List.mem_or_eq_of_mem_set hu
        · exact hphases u hu
        · rw [ht]
          exact fun hp => by cases hp
      rw [call_next hs]
      cases hp : s.phase with
      | fresh =>
        rw [Stepper.next_of_invalid hp hv]
        refine ⟨⟨rfl, hsteppers _ rfl⟩, ?_⟩
        rintro f ⟨⟩
        exact Or.inr rfl
      | walking => exact absurd hp (hphases s (List.mem_of_getElem? hs))
      | spent =>
        rw [Stepper.next_of_spent hp]
        refine ⟨⟨rfl, hsteppers s hp⟩, ?_⟩
        rintro f ⟨⟩
        exact Or.inl ⟨rfl, i, rfl⟩

theorem Sound.reachable (hm : m.Safe) (hv : m.program.validate = .ok ()) (hq : q.Reachable m) :
    q.Sound m := by
  obtain ⟨calls, rfl⟩ := hq
  refine Calls.after_induction (fun q c h => (h.call hv c).1) ?_ calls
  exact ⟨.refl m, hm, fun s hs => by cases hs⟩

theorem Idle.reachable {e : Fault} (hv : m.program.validate = .error e) (hq : q.Reachable m) :
    q.Idle m := by
  obtain ⟨calls, rfl⟩ := hq
  refine Calls.after_induction (fun q c h => (h.call hv c).1) ?_ calls
  exact ⟨rfl, fun s hs => by cases hs⟩

end Pool

structure Machine.Within (program : Program) (tape : Tape) (limit : Option Int) (m : Machine) : Prop where
  position : 0 ≤ m.instructionPointer ∧ m.instructionPointer ≤ program.size
  pointer : 0 ≤ m.dataPointer ∧ m.dataPointer < tape.size
  size : m.tape.size = tape.size
  cells : ∀ v ∈ m.tape.cells, tape.minimum ≤ v ∧ v ≤ tape.maximum
  steps : ∀ n, limit = some n → m.steps ≤ n

theorem Machine.Safe.within {m m' : Machine} (h : m'.Safe) (hs : m.SameSettings m') :
    m'.Within m.program m.tape m.maxSteps := by
  obtain ⟨hw, hnonneg, hle, hsteps⟩ := h
  rw [hs.program] at hle
  rw [hs.maxSteps] at hsteps
  refine ⟨⟨hnonneg, hle⟩, ⟨hw.pointer_nonneg, ?_⟩, hs.size, ?_, hsteps⟩
  · rw [← hs.size]
    exact hw.pointer_lt
  · intro v hv
    rw [← hs.minimum, ← hs.maximum]
    exact hw.tape.cell_mem v hv

/-- What a blocked machine says about the settings that it started with. -/
theorem Machine.Blocked.cases {m m' : Machine} {f : Fault} (h : m'.Blocked (.fault f)) (hm : m'.Safe)
    (hs : m.SameSettings m') :
    (f = .stepLimit ∧ ∃ n, m.maxSteps = some n ∧ m'.steps = n) ∨
      (f.kind = .endOfInput ∧ ∀ v, m.input.ending ≠ .repeats v) ∨
      ∃ v, f = .notAByte (.integer v) ∧
        m'.program.instructionAt (.integer m'.instructionPointer) = .ok .write ∧
        m'.current = .ok v ∧ ¬ (0 ≤ v ∧ v ≤ 255) := by
  cases h with
  | limit hl =>
    refine Or.inl ⟨rfl, ?_⟩
    cases hn : m'.maxSteps with
    | none => simp [limitReached, hn] at hl
    | some n =>
      refine ⟨n, hs.maxSteps.symm.trans hn, ?_⟩
      have hle : n ≤ m'.steps := by simpa [limitReached, hn] using hl
      exact Int.le_antisymm (hm.steps_le n hn) hle
  | input hc he =>
    have hf := Ending.within_fault he
    rw [hs.ending] at hf
    refine Or.inr (Or.inl ⟨?_, ?_⟩)
    · cases he : m.input.ending with
      | repeats v => rw [he, Ending.value] at hf; cases hf
      | _ => rw [he, Ending.value] at hf; cases hf; rfl
    · intro v he
      rw [he, Ending.value] at hf
      cases hf
  | output hc hv hbyte => exact Or.inr (Or.inr ⟨_, rfl, hc, hv, hbyte⟩)

/-- A machine is blocked neither by an index nor by an instruction, and by a value only if its cells hold
more than bytes. -/
theorem Machine.Blocked.kind {m m' : Machine} {f : Fault} (h : m'.Blocked (.fault f)) (hm : m'.Safe)
    (hs : m.SameSettings m') :
    (f.kind ≠ .indexOutOfBounds ∧ f.kind ≠ .invalidInstruction) ∧
      (0 ≤ m.tape.minimum → m.tape.maximum ≤ 255 → f.kind ≠ .valueOutOfRange) := by
  obtain ⟨rfl, -⟩ | ⟨hk, -⟩ | ⟨v, rfl, -, hcurrent, hbyte⟩ := h.cases hm hs
  · simp [Fault.kind]
  · simp [hk]
  · refine ⟨by simp [Fault.kind], ?_⟩
    intro hmin hmax
    have hbetween := hm.current_between hcurrent
    rw [hs.minimum, hs.maximum] at hbetween
    have hv : 0 ≤ v ∧ v ≤ 255 := by omega
    exact absurd hv hbyte

/-- A program that adds one to a cell of 255 and writes it, on a tape whose cells hold more than bytes. -/
def wideCell : Machine where
  program := .ofSource "+."
  tape := ⟨0, 300, 255, #[255]⟩
  input := ⟨[], .exhausted⟩
  sink := .empty .buffer

end Brainfuck
