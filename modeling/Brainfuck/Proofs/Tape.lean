import Mathlib.Tactic.SplitIfs
import Brainfuck.Tape

/-! Tapes whose cells lie within their bounds. Reads and writes at a position on such a tape always
succeed, and they keep it within its bounds. -/
namespace Brainfuck.Tape

structure Valid (t : Tape) : Prop where
  size_pos : 0 < t.size
  default_mem : t.minimum ≤ t.default ∧ t.default ≤ t.maximum
  cell_mem : ∀ v ∈ t.cells, t.minimum ≤ v ∧ v ≤ t.maximum

def cell (t : Tape) (p : Int) : Int :=
  t.cells[p.toNat]?.getD t.default

/-- Every tape that is made has the wanted size and bounds and holds its default only. -/
theorem blank_ok {layout : Layout} {room : Room} {t : Tape} (h : blank layout room = .ok t) :
    ∃ size minimum maximum default : Int, layout = ⟨.ok size, .ok minimum, .ok maximum, .ok default⟩ ∧ 0 < size ∧
      (minimum ≤ default ∧ default ≤ maximum) ∧ t = ⟨minimum, maximum, default, .replicate size.toNat default⟩ := by
  obtain ⟨size, minimum, maximum, default⟩ := layout
  unfold blank at h
  simp only [bind, Except.bind, pure, Except.pure, throw, throwThe, MonadExceptOf.throw] at h
  split at h
  · cases h
  split_ifs at h with hsize
  split at h
  · cases h
  split at h
  · cases h
  split_ifs at h with hrange
  split at h
  · cases h
  split_ifs at h with hdefault
  split at h
  · cases h
  obtain rfl := Except.ok.inj h
  exact ⟨_, _, _, _, rfl, by omega, by omega, rfl⟩

/-- So it is valid. -/
theorem blank_valid {layout : Layout} {room : Room} {t : Tape} (h : blank layout room = .ok t) : t.Valid := by
  obtain ⟨size, minimum, maximum, default, -, hsize, hdefault, rfl⟩ := blank_ok h
  refine ⟨?_, hdefault, ?_⟩
  · simp only [Tape.size, Array.size_replicate]
    omega
  · intro v hv
    obtain ⟨-, rfl⟩ := Array.mem_replicate.mp hv
    exact hdefault

/-- Every place lies on the tape, counted round. -/
theorem place_mem {t : Tape} (hsize : 0 < t.size) (q : Int) : 0 ≤ q % t.size ∧ q % t.size < t.size := by
  have hpos : (0 : Int) < t.size := Int.natCast_pos.mpr hsize
  exact ⟨Int.emod_nonneg q (by omega), Int.emod_lt_of_pos q hpos⟩

section Position
variable {t : Tape} {p : Int} (hp : 0 ≤ p) (hs : p < t.size)
include hp hs

theorem cellIndex_integer : t.cellIndex (.integer p) = .ok p.toNat := by
  simp only [cellIndex, position]
  rw [if_pos ⟨hp, hs⟩]

theorem read_integer : t.read (.integer p) = .ok (t.cell p) := by
  simp only [Tape.read, cellIndex_integer hp hs]
  rfl

theorem target_integer {v : Int} (hv : t.minimum ≤ v ∧ v ≤ t.maximum) :
    t.target (.integer p) (.integer v) = .ok (p.toNat, v) := by
  simp only [target, cellIndex_integer hp hs, bind, Except.bind]
  rw [if_pos hv]
  rfl

theorem Valid.cell_between (ht : t.Valid) : t.minimum ≤ t.cell p ∧ t.cell p ≤ t.maximum := by
  have hi : p.toNat < t.cells.size := by
    have : p < t.cells.size := hs
    omega
  simp only [cell, Array.getElem?_eq_getElem hi, Option.getD_some]
  exact ht.cell_mem _ (Array.getElem_mem hi)

end Position

@[simp] theorem set_size (t : Tape) (i : Nat) (v : Int) : (t.set i v).size = t.size := by
  simp [set, Tape.size]

theorem cell_set {t : Tape} {p : Int} (hp : 0 ≤ p) (hs : p < t.size) (v : Int) :
    (t.set p.toNat v).cell p = v := by
  have hi : p.toNat < t.cells.size := by
    have hs : p < t.cells.size := hs
    omega
  simp [cell, set, hi]

theorem cell_set_ne {t : Tape} {p q : Int} (hp : 0 ≤ p) (hq : 0 ≤ q) (hne : q ≠ p) (v : Int) :
    (t.set p.toNat v).cell q = t.cell q := by
  have hplace : p.toNat ≠ q.toNat := by omega
  simp only [cell, set]
  rw [Array.getElem?_setIfInBounds_ne hplace]

theorem Valid.set {t : Tape} (ht : t.Valid) (i : Nat) {v : Int}
    (hv : t.minimum ≤ v ∧ v ≤ t.maximum) : (t.set i v).Valid := by
  refine ⟨?_, ht.default_mem, ?_⟩
  · rw [set_size]
    exact ht.size_pos
  · intro w hw
    obtain hw | rfl := Array.mem_or_eq_of_mem_setIfInBounds hw
    · exact ht.cell_mem w hw
    · exact hv

/-- Whatever is accepted for a cell lies within the bounds. -/
theorem target_between {t : Tape} {index value : Datum} {i : Nat} {v : Int}
    (h : t.target index value = .ok (i, v)) : t.minimum ≤ v ∧ v ≤ t.maximum := by
  unfold target at h
  simp only [bind, Except.bind, pure, Except.pure, throw, throwThe, MonadExceptOf.throw] at h
  split at h
  · cases h
  · split at h
    · split_ifs at h with hv
      obtain ⟨-, rfl⟩ := Prod.mk.inj (Except.ok.inj h)
      exact hv
    · cases h

/-- The tapes that there are on any host: blank ones, and those that have been written to. -/
inductive Made : Tape → Prop where
  | blank {layout : Layout} {room : Room} {t : Tape} (h : Tape.blank layout room = .ok t) : Made t
  | written {t u : Tape} {index value : Datum} (ht : Made t) (h : t.write index value = .ok u) : Made u

theorem Made.valid {t : Tape} (h : t.Made) : t.Valid := by
  induction h with
  | blank h => exact blank_valid h
  | @written t u index value ht h ih =>
    unfold write at h
    simp only [bind, Except.bind, pure, Except.pure] at h
    split at h
    · cases h
    · next hv =>
      obtain rfl := Except.ok.inj h
      exact ih.set _ (target_between hv)

theorem next_between {t : Tape} {v : Int} (hv : t.minimum ≤ v ∧ v ≤ t.maximum) :
    t.minimum ≤ t.next v ∧ t.next v ≤ t.maximum := by
  unfold next
  split_ifs <;> omega

theorem previous_between {t : Tape} {v : Int} (hv : t.minimum ≤ v ∧ v ≤ t.maximum) :
    t.minimum ≤ t.previous v ∧ t.previous v ≤ t.maximum := by
  unfold previous
  split_ifs <;> omega

end Brainfuck.Tape
