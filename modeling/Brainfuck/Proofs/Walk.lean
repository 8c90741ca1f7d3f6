import Brainfuck.Proofs.Matching

/-! Walks by the instructions that they look at. A walk that is not told how far to go comes to its end inside
the program or right behind it, so that it looks at no more instructions than there are. -/
namespace Brainfuck

/-- How many positions are left in a program, from one position on. -/
def Direction.ahead (size : Nat) (i : Int) : Direction → Nat
  | forward => (size - i).toNat
  | backward => (i + 1).toNat

namespace Program
variable {p : Program} {d : Direction} {depth n fuel : Nat} {i : Int} {r : Except Fault Int}

/-- A walk from a position, behind `depth` open brackets: how many times it looks for an instruction, and where
it arrives or how it fails. -/
inductive Walks (p : Program) (d : Direction) : Nat → Int → Nat → Except Fault Int → Prop where
  | leaves {depth : Nat} {i : Int} {f : Fault} (h : p.instructionAt (.integer i) = .error f) :
      Walks p d depth i 1 (.error f)
  | arrives {depth : Nat} {i : Int} {c : Instruction} (h : p.instructionAt (.integer i) = .ok c)
      (hd : d.depthAfter depth c = 0) : Walks p d depth i 1 (.ok i)
  | passes {depth n : Nat} {i : Int} {c : Instruction} {r : Except Fault Int}
      (h : p.instructionAt (.integer i) = .ok c) (hd : d.depthAfter depth c ≠ 0)
      (hw : Walks p d (d.depthAfter depth c) (i + d.sign) n r) : Walks p d depth i (n + 1) r

/-- Every walk comes to an end, at the latest right behind the program. -/
theorem exists_walks (p : Program) (d : Direction) (depth : Nat) (i : Int) :
    ∃ n r, p.Walks d depth i n r ∧ n ≤ d.ahead p.size i + 1 := by
  induction h : d.ahead p.size i generalizing depth i with
  | zero =>
    -- nothing is left, so that the position is outside
    cases hc : p.instructionAt (.integer i) with
    | error f => exact ⟨1, _, .leaves hc, Nat.le_refl 1⟩
    | ok c =>
      have hinside := instructionAt_ok hc
      cases d with
      | forward => simp only [Direction.ahead] at h; omega
      | backward => simp only [Direction.ahead] at h; omega
  | succ k ih =>
    cases hc : p.instructionAt (.integer i) with
    | error f => exact ⟨1, _, .leaves hc, by omega⟩
    | ok c =>
      by_cases hd : d.depthAfter depth c = 0
      · exact ⟨1, _, .arrives hc hd, by omega⟩
      · have hnext : d.ahead p.size (i + d.sign) = k := by
          cases d with
          | forward => simp only [Direction.ahead, Direction.sign] at h ⊢; omega
          | backward => simp only [Direction.ahead, Direction.sign] at h ⊢; omega
        obtain ⟨n, r, hw, hn⟩ := ih (d.depthAfter depth c) (i + d.sign) hnext
        exact ⟨n + 1, r, .passes hc hd hw, by omega⟩

/-- A walk that may go far enough is not cut short. -/
theorem Walks.walk_eq (h : p.Walks d depth i n r) (hfuel : n ≤ fuel) : p.walk d fuel depth i = r := by
  induction h generalizing fuel with
  | leaves hc =>
    obtain ⟨k, rfl⟩ := Nat.exists_eq_add_of_le' hfuel
    simp only [walk, hc]
  | arrives hc hd =>
    obtain ⟨k, rfl⟩ := Nat.exists_eq_add_of_le' hfuel
    simp only [walk, hc, hd, if_true]
  | passes hc hd hw ih =>
    obtain ⟨k, rfl⟩ := Nat.exists_eq_add_of_le' (Nat.le_trans (Nat.le_add_left 1 _) hfuel)
    simp only [walk, hc, hd, if_false]
    exact ih (by omega)

/-- From a position inside, the walk that a jump takes looks for no more instructions than there are. -/
theorem exists_walks_of_inside (d : Direction) (hi : 0 ≤ i) (hs : i < p.size) :
    ∃ n r, n ≤ p.size ∧ p.Walks d 1 (i + d.sign) n r ∧ p.jumpDistance i d = r.map (· - i) := by
  obtain ⟨n, r, hw, hn⟩ := p.exists_walks d 1 (i + d.sign)
  have hle : n ≤ p.size := by
    cases d with
    | forward => simp only [Direction.ahead, Direction.sign] at hn; omega
    | backward => simp only [Direction.ahead, Direction.sign] at hn; omega
  refine ⟨n, r, hle, hw, ?_⟩
  rw [jumpDistance, hw.walk_eq (Nat.le_succ_of_le hle)]

end Program

end Brainfuck
