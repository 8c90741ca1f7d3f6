import Brainfuck.Sink
import Brainfuck.Proofs.Block
import Brainfuck.Proofs.Input
import Brainfuck.Proofs.Tape

/-! What a program works on, and what each action does to it. -/
namespace Brainfuck

/-- A tape with a pointer to its current cell, an input and a sink, and the steps so far. -/
structure Workspace where
  tape : Tape
  pointer : Int
  input : Input
  sink : Sink
  steps : Int

theorem Sink.accept_integer (kind : Kind) (v : Int) :
    accept kind (.integer v) =
      if kind = .row ∨ (0 ≤ v ∧ v ≤ 255) then .ok v else .error (.notAByte (.integer v)) := by
  by_cases hv : 0 ≤ v ∧ v ≤ 255
  · cases kind <;> simp [accept, integerOf, Input.between?_integer, hv]
  · cases kind <;> simp [accept, integerOf, Input.between?_integer, hv]

namespace Workspace

def current (s : Workspace) : Int :=
  s.tape.cell s.pointer

def put (s : Workspace) (v : Int) : Workspace :=
  { s with tape := s.tape.set s.pointer.toNat v }

def tick (s : Workspace) : Workspace :=
  { s with steps := s.steps + 1 }

def receive (s : Workspace) : Workspace × Except Stop Unit :=
  match s.input.search s.tape.minimum s.tape.maximum with
  | (.ok n, rest) => ({ s.put n with input := rest }, .ok ())
  | (.error e, rest) => ({ s with input := rest }, .error e)

/-- Writes the current cell. Only a row takes more than bytes. -/
def send (s : Workspace) : Workspace × Except Stop Unit :=
  if s.sink.kind = .row ∨ (0 ≤ s.current ∧ s.current ≤ 255) then
    ({ s with sink := s.sink.push s.current }, .ok ())
  else (s, .error (.fault (.notAByte (.integer s.current))))

structure Valid (s : Workspace) : Prop where
  tape : s.tape.Valid
  pointer_nonneg : 0 ≤ s.pointer
  pointer_lt : s.pointer < s.tape.size
  input : s.input.Integral

end Workspace

/-- Carries out an action. The pointer moves around the tape, and cells count around their bounds. -/
def Action.perform (s : Workspace) : Action → Workspace × Except Stop Unit
  | right => ({ s with pointer := (s.pointer + 1) % s.tape.size }, .ok ())
  | left => ({ s with pointer := (s.pointer - 1) % s.tape.size }, .ok ())
  | increment => (s.put (s.tape.next s.current), .ok ())
  | decrement => (s.put (s.tape.previous s.current), .ok ())
  | read => s.receive
  | write => s.send

namespace Workspace
variable {s : Workspace}

theorem Valid.tick (h : s.Valid) : s.tick.Valid :=
  ⟨h.tape, h.pointer_nonneg, h.pointer_lt, h.input⟩

theorem Valid.current_between (h : s.Valid) :
    s.tape.minimum ≤ s.current ∧ s.current ≤ s.tape.maximum :=
  Tape.Valid.cell_between h.pointer_nonneg h.pointer_lt h.tape

theorem Valid.put (h : s.Valid) {v : Int} (hv : s.tape.minimum ≤ v ∧ v ≤ s.tape.maximum) :
    (s.put v).Valid := by
  refine ⟨h.tape.set _ hv, h.pointer_nonneg, ?_, h.input⟩
  simpa [Workspace.put] using h.pointer_lt

theorem Valid.search (h : s.Valid) (lo hi : Int) :
    Valid { s with input := (s.input.search lo hi).2 } :=
  ⟨h.tape, h.pointer_nonneg, h.pointer_lt, h.input.search lo hi⟩

theorem Valid.wrap (h : s.Valid) (p : Int) : Valid { s with pointer := p % s.tape.size } := by
  obtain ⟨hnonneg, hlt⟩ := Tape.place_mem h.tape.size_pos p
  exact ⟨h.tape, hnonneg, hlt, h.input⟩

theorem Valid.receive (h : s.Valid) : s.receive.1.Valid := by
  have hsearch := h.search s.tape.minimum s.tape.maximum
  unfold Workspace.receive
  split
  · next n rest hn =>
    rw [hn] at hsearch
    exact hsearch.put (Input.search_ok (congrArg Prod.fst hn))
  · next e rest he =>
    rw [he] at hsearch
    exact hsearch

theorem Valid.send (h : s.Valid) : s.send.1.Valid := by
  unfold Workspace.send
  split
  · exact ⟨h.tape, h.pointer_nonneg, h.pointer_lt, h.input⟩
  · exact h

/-- Actions keep a workspace valid, also those that fail. -/
theorem Valid.perform (h : s.Valid) (a : Action) : (a.perform s).1.Valid := by
  cases a with
  | right => exact h.wrap _
  | left => exact h.wrap _
  | increment => exact h.put (Tape.next_between h.current_between)
  | decrement => exact h.put (Tape.previous_between h.current_between)
  | read => exact h.receive
  | write => exact h.send

theorem perform_steps (a : Action) (s : Workspace) : (a.perform s).1.steps = s.steps := by
  cases a with
  | read =>
    simp only [Action.perform, Workspace.receive]
    split <;> rfl
  | write =>
    simp only [Action.perform, Workspace.send]
    split <;> rfl
  | _ => rfl

/-- Only a read that finds nothing and a write of a cell that is no byte fail. -/
theorem perform_error {s t : Workspace} {a : Action} {e : Stop} (h : a.perform s = (t, .error e)) :
    (a = .read ∧ t.input.ending.within t.tape.minimum t.tape.maximum = .error e) ∨
      (a = .write ∧ t = s ∧ e = .fault (.notAByte (.integer s.current)) ∧
        ¬ (0 ≤ s.current ∧ s.current ≤ 255)) := by
  cases a with
  | read =>
    simp only [Action.perform, Workspace.receive] at h
    split at h
    · cases (Prod.mk.inj h).2
    · next e rest hsearch =>
      obtain ⟨rfl, he⟩ := Prod.mk.inj h
      obtain rfl := Except.error.inj he
      have hending := Input.search_ending s.tape.minimum s.tape.maximum s.input
      rw [hsearch] at hending
      refine Or.inl ⟨rfl, ?_⟩
      dsimp only at hending ⊢
      rw [hending]
      exact Input.search_error (congrArg Prod.fst hsearch)
  | write =>
    simp only [Action.perform, Workspace.send] at h
    split at h
    · cases (Prod.mk.inj h).2
    · next hbyte =>
      obtain ⟨rfl, he⟩ := Prod.mk.inj h
      obtain rfl := Except.error.inj he
      exact Or.inr ⟨rfl, rfl, rfl, fun hv => hbyte (Or.inr hv)⟩
  | _ => cases (Prod.mk.inj h).2

theorem Valid.of_perform {t : Workspace} {a : Action} {r : Except Stop Unit} (h : s.Valid)
    (ha : a.perform s = (t, r)) : t.Valid := by
  have := h.perform a
  rwa [ha] at this

end Workspace

end Brainfuck
