import Brainfuck.Proofs.Guise

/-! The journal is written and never read. Machines that differ in nothing else go the same way, and nothing
that they write is worth more than the lowest level. -/
namespace Brainfuck.Machine

def bare (m : Machine) : Machine :=
  { m with journal := #[] }

@[simp] theorem record_bare (m : Machine) (e : Event) : (m.record e).bare = m.bare := rfl

/-- A journal is part of a guise. -/
theorem bare_inGuise (m : Machine) : m.bare.inGuise { earlier := m.journal } = m := by
  simp [bare, inGuise]

private theorem cycle_eq_dress (m : Machine) : m.cycle = Guise.dress { earlier := m.journal } m.bare.cycle := by
  have hcycle : (m.bare.inGuise { earlier := m.journal }).cycle = _ := cycle_inGuise rfl
  rwa [m.bare_inGuise] at hcycle

variable {m m' : Machine} (h : m.bare = m'.bare)
include h

theorem cycle_bare : m.cycle.1.bare = m'.cycle.1.bare ∧ m.cycle.2 = m'.cycle.2 := by
  rw [m.cycle_eq_dress, m'.cycle_eq_dress, h]
  exact ⟨rfl, rfl⟩

/-- Whatever can be told without the journal is told alike. -/
private theorem eq_of_bare {α : Type} {f : Machine → α} (hf : ∀ m : Machine, f m.bare = f m) :
    f m = f m' := by
  rw [← hf m, ← hf m', h]

theorem halted_bare : m.halted = m'.halted :=
  eq_of_bare h fun _ => rfl

theorem program_bare : m.program = m'.program :=
  eq_of_bare h fun _ => rfl

theorem workspace_bare : m.workspace = m'.workspace :=
  eq_of_bare h fun _ => rfl

omit h

/-- A machine whose events are all of the lowest level. -/
def Quiet (m : Machine) : Prop :=
  ∀ e ∈ m.journal, e.level = .debug

theorem Quiet.of_journal_eq (hm : m.Quiet) (hj : m'.journal = m.journal) : m'.Quiet := by
  intro e he
  rw [hj] at he
  exact hm e he

theorem Quiet.record {e : Event} (hm : m.Quiet) (he : e.level = .debug) : (m.record e).Quiet := by
  intro e' he'
  obtain he' | rfl := Array.mem_push.mp he'
  · exact hm e' he'
  · exact he

theorem Quiet.receive (hm : m.Quiet) : m.receive.1.Quiet := by
  obtain ⟨tape, h⟩ := m.receive_footprint
  rw [h]
  -- all that is noted are the values passed over
  intro e he
  obtain he | he := Array.mem_append.mp he
  · exact hm e he
  · obtain ⟨v, -, rfl⟩ := List.mem_map.mp (List.mem_toArray.mp he)
    rfl

theorem Quiet.perform (hm : m.Quiet) (c : Instruction) : (m.perform c).1.Quiet := by
  by_cases hc : c = .read
  · subst hc
    exact hm.receive
  · exact hm.of_journal_eq ((m.perform_footprint c).journal hc)

theorem Quiet.cycle (hm : m.Quiet) : m.cycle.1.Quiet :=
  cycle_induction hm hm.perform fun _ h => h

end Brainfuck.Machine
