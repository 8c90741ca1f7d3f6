import Mathlib.Tactic.ByContra
import Brainfuck.Proofs.Balance

/-! Walks from bracket to bracket. A walk passes over a block without coming to its end, and so it leads
from the bracket in front of a block to the one behind it, and back. -/
namespace Brainfuck.Program

variable {p : Program}

theorem position_natCast (what : String) {k n : Nat} (h : k < n) :
    position what n (.integer k) = .ok k := by
  unfold position
  dsimp only
  rw [if_pos (by omega), Int.toNat_natCast]

theorem instructionAt_natCast {k : Nat} {c : Instruction} (h : p.code[k]? = some c) :
    p.instructionAt (.integer k) = .ok c := by
  obtain ⟨hk, hc⟩ := Array.getElem?_eq_some_iff.mp h
  simp only [instructionAt, position_natCast _ (show k < p.size from hk), bind, Except.bind, h]
  rfl

theorem instructionAt_ok {i : Int} {c : Instruction} (h : p.instructionAt (.integer i) = .ok c) :
    0 ≤ i ∧ i < p.size := by
  by_contra hi
  have : p.instructionAt (.integer i) =
      .error (.indexOutOfBounds "instruction index" i p.size) := by
    simp only [instructionAt, position, bind, Except.bind]
    rw [if_neg hi]
  rw [this] at h
  cases h

theorem exists_instructionAt {i : Int} (hi : 0 ≤ i) (hs : i < p.size) :
    ∃ c, p.instructionAt (.integer i) = .ok c := by
  obtain ⟨k, rfl⟩ := Int.eq_ofNat_of_zero_le hi
  have hk : k < p.code.size := Int.ofNat_lt.mp hs
  exact ⟨p.code[k], instructionAt_natCast (Array.getElem?_eq_getElem hk)⟩

theorem instructionAt_natCast_iff {k : Nat} {c : Instruction} :
    p.instructionAt (.integer k) = .ok c ↔ p.code[k]? = some c := by
  refine ⟨fun h => ?_, instructionAt_natCast⟩
  have hk : k < p.code.size := Int.ofNat_lt.mp (instructionAt_ok h).2
  have hget : p.code[k]? = some p.code[k] := Array.getElem?_eq_getElem hk
  obtain rfl := Except.ok.inj ((instructionAt_natCast hget).symm.trans h)
  exact hget

/-- Instructions stand in a row from some position on. -/
def Holds (p : Program) (i : Int) (cs : List Instruction) : Prop :=
  ∀ (k : Nat) (c : Instruction), cs[k]? = some c → p.instructionAt (.integer (i + k)) = .ok c

theorem holds_zero (p : Program) : p.Holds 0 p.code.toList := by
  intro k c h
  rw [Array.getElem?_toList] at h
  rw [Int.zero_add]
  exact instructionAt_natCast h

section Holds
variable {i : Int} {c : Instruction} {cs xs ys : List Instruction}

theorem Holds.head (h : p.Holds i (c :: cs)) : p.instructionAt (.integer i) = .ok c := by
  have := h 0 c rfl
  rwa [Int.natCast_zero, Int.add_zero] at this

theorem Holds.tail (h : p.Holds i (c :: cs)) : p.Holds (i + 1) cs := by
  intro k d hd
  have := h (k + 1) d (by simpa using hd)
  rwa [show i + ((k + 1 : Nat) : Int) = i + 1 + k by omega] at this

theorem Holds.left (h : p.Holds i (xs ++ ys)) : p.Holds i xs := by
  intro k d hd
  have hk := (List.getElem?_eq_some_iff.mp hd).1
  exact h k d (by rw [List.getElem?_append_left hk, hd])

theorem Holds.right (h : p.Holds i (xs ++ ys)) : p.Holds (i + xs.length) ys := by
  intro k d hd
  have := h (xs.length + k) d
    (by rw [List.getElem?_append_right (Nat.le_add_right _ _), Nat.add_sub_cancel_left, hd])
  rwa [show i + ((xs.length + k : Nat) : Int) = i + xs.length + k by omega] at this

/-- They are that part of the program. -/
theorem Holds.take_drop {k : Nat} (h : p.Holds k cs) : (p.code.toList.drop k).take cs.length = cs := by
  apply List.ext_getElem?
  intro n
  by_cases hn : n < cs.length
  · have hget := instructionAt_natCast_iff.mp (h n cs[n] (List.getElem?_eq_getElem hn))
    rw [List.getElem?_take_of_lt hn, List.getElem?_drop, Array.getElem?_toList, hget,
      List.getElem?_eq_getElem hn]
  · rw [List.getElem?_take_eq_none (Nat.not_lt.mp hn), List.getElem?_eq_none (Nat.not_lt.mp hn)]

end Holds

/-- What stands at a position divides the program. -/
theorem exists_split_at {i : Int} {c : Instruction} (hc : p.instructionAt (.integer i) = .ok c) :
    ∃ pre post, p.code.toList = pre ++ c :: post ∧ i = pre.length := by
  obtain ⟨hi, hs⟩ := instructionAt_ok hc
  obtain ⟨k, rfl⟩ := Int.eq_ofNat_of_zero_le hi
  have hk : k < p.code.toList.length := Int.ofNat_lt.mp hs
  have hget := instructionAt_natCast_iff.mp hc
  rw [← Array.getElem?_toList] at hget
  refine ⟨_, _, split_at hget, ?_⟩
  rw [List.length_take]
  omega

/-- At each bracket of a checked program stands a loop, behind the bracket or in front of it. -/
theorem exists_loop_at {i : Int} {c : Instruction} (hv : p.validate = .ok ())
    (hc : p.instructionAt (.integer i) = .ok c) (hbracket : c = .loopOpen ∨ c = .loopClose) :
    ∃ (j : Int) (body : Block) (tail : List Instruction),
      p.Holds j (.loopOpen :: (body.flatten ++ .loopClose :: tail)) ∧
        (i = j ∨ i = j + 1 + body.flatten.length) := by
  obtain ⟨-, b, hb⟩ := (validate_ok_iff p).mp hv
  obtain ⟨pre, post, hsplit, rfl⟩ := exists_split_at hc
  have hholds := p.holds_zero
  rw [hsplit] at hb hholds
  obtain rfl | rfl := hbracket
  · obtain ⟨body, tail, rfl⟩ := Block.exists_body_of_open hb.symm
    exact ⟨pre.length, body, tail, by simpa using hholds.right, Or.inl rfl⟩
  · obtain ⟨front, body, rfl⟩ := Block.exists_body_of_close hb.symm
    have hloop : p.Holds 0 (front ++ .loopOpen :: (body.flatten ++ .loopClose :: post)) := by
      simpa using hholds
    refine ⟨front.length, body, post, by simpa using hloop.right, Or.inr ?_⟩
    rw [List.length_append, List.length_cons]
    omega

/-- One step of a walk that does not end here. -/
theorem walk_succ (d : Direction) (fuel : Nat) {depth k : Nat} {i : Int} {c : Instruction}
    (hc : p.instructionAt (.integer i) = .ok c) (hk : d.depthAfter depth c = k + 1) :
    p.walk d (fuel + 1) depth i = p.walk d fuel (k + 1) (i + d.sign) := by
  simp [walk, hc, hk]

/-- The last step of a walk. -/
theorem walk_end (d : Direction) (fuel : Nat) {i : Int}
    (hc : p.instructionAt (.integer i) = .ok d.closing) : p.walk d (fuel + 1) 1 i = .ok i := by
  have hk : d.depthAfter 1 d.closing = 0 := by cases d <;> rfl
  simp [walk, hc, hk]

theorem depthAfter_action (d : Direction) (depth : Nat) (a : Action) :
    d.depthAfter depth a.instruction = depth := by
  cases d <;> simp [Direction.depthAfter, Direction.opening, Direction.closing,
    a.instruction_ne_open, a.instruction_ne_close]

theorem depthAfter_opening (d : Direction) (depth : Nat) :
    d.depthAfter depth d.opening = depth + 1 := by
  simp [Direction.depthAfter]

theorem depthAfter_closing (d : Direction) (depth : Nat) :
    d.depthAfter (depth + 1) d.closing = depth := by
  cases d <;> simp [Direction.depthAfter, Direction.opening, Direction.closing]

/-- A walk forward passes over a block. -/
theorem walk_forward_flatten {b : Block} {i : Int} (h : p.Holds i b.flatten) (fuel depth : Nat) :
    p.walk .forward (fuel + b.flatten.length) (depth + 1) i =
      p.walk .forward fuel (depth + 1) (i + b.flatten.length) := by
  induction b generalizing i fuel depth with
  | done => simp [Block.flatten]
  | action a rest ih =>
    have hstep := walk_succ .forward (fuel + rest.flatten.length) h.head
      (depthAfter_action .forward (depth + 1) a)
    simp only [Block.flatten, List.length_cons]
    rw [← Nat.add_assoc, hstep, Direction.sign, ih h.tail]
    congr 1
    omega
  | loop body rest ihb ihr =>
    have hbody : p.Holds (i + 1) body.flatten := h.tail.left
    have hclose := h.tail.right
    have hopen := walk_succ .forward
      (fuel + rest.flatten.length + 1 + body.flatten.length) h.head
      (depthAfter_opening .forward (depth + 1))
    have hshut := walk_succ .forward (fuel + rest.flatten.length) hclose.head
      (depthAfter_closing .forward (depth + 1))
    have hlen : fuel + (Block.loop body rest).flatten.length =
        fuel + rest.flatten.length + 1 + body.flatten.length + 1 := by
      simp only [Block.flatten, List.length_cons, List.length_append]
      omega
    rw [hlen, hopen, Direction.sign, ihb hbody, hshut, Direction.sign, ihr hclose.tail]
    congr 1
    simp only [Block.flatten, List.length_cons, List.length_append]
    omega

/-- A walk backward passes over a block. -/
theorem walk_backward_flatten {b : Block} {i : Int} (h : p.Holds i b.flatten) (fuel depth : Nat) :
    p.walk .backward (fuel + b.flatten.length) (depth + 1) (i + b.flatten.length - 1) =
      p.walk .backward fuel (depth + 1) (i - 1) := by
  induction b generalizing i fuel depth with
  | done => simp [Block.flatten]
  | action a rest ih =>
    have hstep := walk_succ .backward fuel h.head
      (depthAfter_action .backward (depth + 1) a)
    have hlen : fuel + (Block.action a rest).flatten.length = fuel + 1 + rest.flatten.length := by
      simp only [Block.flatten, List.length_cons]
      omega
    have hpos : i + (Block.action a rest).flatten.length - 1 = i + 1 + rest.flatten.length - 1 := by
      simp only [Block.flatten, List.length_cons]
      omega
    rw [hlen, hpos, ih h.tail, show i + 1 - 1 = i by omega, hstep]
    rfl
  | loop body rest ihb ihr =>
    have hbody : p.Holds (i + 1) body.flatten := h.tail.left
    have hclose := h.tail.right
    have hopen := walk_succ .backward fuel h.head
      (depthAfter_closing .backward (depth + 1))
    have hshut := walk_succ .backward (fuel + 1 + body.flatten.length) hclose.head
      (depthAfter_opening .backward (depth + 1))
    have hlen : fuel + (Block.loop body rest).flatten.length =
        fuel + 1 + body.flatten.length + 1 + rest.flatten.length := by
      simp only [Block.flatten, List.length_cons, List.length_append]
      omega
    have hpos : i + (Block.loop body rest).flatten.length - 1 =
        i + 1 + body.flatten.length + 1 + rest.flatten.length - 1 := by
      simp only [Block.flatten, List.length_cons, List.length_append]
      omega
    rw [hlen, hpos, ihr hclose.tail, Int.add_sub_cancel, hshut, Direction.sign, ← Int.sub_eq_add_neg,
      ihb hbody, Int.add_sub_cancel, hopen]
    rfl

section Jump
variable {body : Block} {tail : List Instruction} {i : Int}

private theorem exists_fuel (h : p.Holds i (.loopOpen :: (body.flatten ++ .loopClose :: tail))) :
    ∃ k, p.size + 1 = k + 1 + body.flatten.length := by
  have hlo := (instructionAt_ok h.head).1
  have hhi := (instructionAt_ok h.tail.right.head).2
  exact ⟨p.size - body.flatten.length, by omega⟩

/-- From the bracket in front of a block to the one behind it. -/
theorem jumpDistance_forward (h : p.Holds i (.loopOpen :: (body.flatten ++ .loopClose :: tail))) :
    p.jumpDistance i .forward = .ok (body.flatten.length + 1) := by
  obtain ⟨k, hk⟩ := exists_fuel h
  have hwalk := walk_forward_flatten h.tail.left (k + 1) 0
  have hend := walk_end .forward k h.tail.right.head
  simp only [jumpDistance, hk, Direction.sign]
  rw [hwalk, hend]
  simp only [Except.map]
  congr 1
  omega

/-- From the bracket behind a block to the one in front of it. -/
theorem jumpDistance_backward (h : p.Holds i (.loopOpen :: (body.flatten ++ .loopClose :: tail))) :
    p.jumpDistance (i + 1 + body.flatten.length) .backward = .ok (-(body.flatten.length + 1)) := by
  obtain ⟨k, hk⟩ := exists_fuel h
  have hwalk := walk_backward_flatten h.tail.left (k + 1) 0
  have hend := walk_end .backward k h.head
  simp only [jumpDistance, hk, Direction.sign]
  rw [← Int.sub_eq_add_neg, hwalk, Int.add_sub_cancel, hend]
  simp only [Except.map]
  congr 1
  omega

end Jump

end Brainfuck.Program
