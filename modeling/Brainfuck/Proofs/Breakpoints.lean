import Mathlib.Data.List.Sort
import Brainfuck.Debugger.Breakpoints

/-! Breakpoints as sets: they are kept in order, and so the positions in them say which ones they are. -/
namespace Brainfuck.Breakpoints
variable {b c : Breakpoints} {p q : Int} {qs : List Int}

theorem mem_place : q ∈ place p qs ↔ q = p ∨ q ∈ qs := by
  induction qs with
  | nil => simp [place]
  | cons r qs ih =>
    unfold place
    split
    · simp
    · split
      · next hp => simp [hp]
      · rw [List.mem_cons, ih, List.mem_cons]
        tauto

theorem pairwise_place (p : Int) (h : qs.Pairwise (· < ·)) : (place p qs).Pairwise (· < ·) := by
  induction qs with
  | nil => simp [place]
  | cons r qs ih =>
    obtain ⟨hr, hqs⟩ := List.pairwise_cons.mp h
    unfold place
    split
    · next hp =>
      refine List.pairwise_cons.mpr ⟨?_, h⟩
      intro q hq
      obtain rfl | hq := List.mem_cons.mp hq
      · exact hp
      · exact Int.lt_trans hp (hr q hq)
    · next hp =>
      split
      · exact h
      · next hne =>
        refine List.pairwise_cons.mpr ⟨?_, ih hqs⟩
        intro q hq
        obtain rfl | hq := mem_place.mp hq
        · omega
        · exact hr q hq

def Ascending (b : Breakpoints) : Prop :=
  b.positions.Pairwise (· < ·)

theorem ascending_empty : Ascending {} :=
  List.Pairwise.nil

theorem Ascending.insert (h : b.Ascending) (p : Int) : (b.insert p).Ascending :=
  pairwise_place p h

theorem Ascending.erase (h : b.Ascending) (p : Int) : (b.erase p).Ascending :=
  List.Pairwise.filter _ h

theorem contains_iff : b.contains p = true ↔ p ∈ b.positions :=
  List.contains_iff_mem

theorem Ascending.ext (hb : b.Ascending) (hc : c.Ascending)
    (h : ∀ p, b.contains p = true ↔ c.contains p = true) : b = c := by
  have hpositions : b.positions = c.positions := by
    refine List.Pairwise.eq_of_mem_iff hb hc ?_
    intro p
    rw [← contains_iff, ← contains_iff, h]
  cases b
  cases c
  exact congrArg mk hpositions

/-- Several positions are put in one by one. -/
theorem Ascending.foldl_insert (h : b.Ascending) (ps : List Int) : (ps.foldl Breakpoints.insert b).Ascending := by
  induction ps generalizing b with
  | nil => exact h
  | cons p ps ih => exact ih (h.insert p)

theorem contains_foldl_insert (b : Breakpoints) (ps : List Int) :
    (ps.foldl insert b).contains q = true ↔ q ∈ ps ∨ b.contains q = true := by
  induction ps generalizing b with
  | nil => simp
  | cons p ps ih =>
    have hinsert : (b.insert p).contains q = true ↔ q = p ∨ b.contains q = true := by
      rw [contains_iff, contains_iff]
      exact mem_place
    rw [List.foldl_cons, ih, hinsert, List.mem_cons]
    tauto

/-- Breakpoints are put together from their positions, in whatever order and however often these come. -/
theorem Ascending.eq_foldl_insert {ps : List Int} (h : b.Ascending)
    (hps : ∀ p, p ∈ ps ↔ b.contains p = true) : b = ps.foldl Breakpoints.insert {} := by
  refine h.ext (ascending_empty.foldl_insert ps) ?_
  intro p
  rw [contains_foldl_insert, hps]
  simp [contains]

end Brainfuck.Breakpoints
