import Mathlib.Order.Bounds.Basic
import Brainfuck.Proofs.Walk

/-! Jumps in any program, whether its brackets match or not, and from any position, inside the program or not. A jump
leads to the nearest place up to which one more bracket has been closed than opened, and it fails if its walk leaves the
program before. -/
namespace Brainfuck

/-- Places next to a neighbour are places next to the position itself, one further away. -/
theorem Direction.place_succ (d : Direction) (i : Int) (k : Nat) :
    i + d.sign * (k + 1 : Nat) = i + d.sign + d.sign * k := by
  rw [Int.natCast_add, Int.natCast_one, Int.mul_add, Int.mul_one, Int.add_comm (d.sign * k), Int.add_assoc]

namespace Program
variable {p q : Program} {d : Direction} {c : Instruction} {depth n : Nat} {i j : Int} {r : Except Fault Int}

def Inside (p : Program) (i : Int) : Prop :=
  0 ≤ i ∧ i < p.size

def instruction? (p : Program) (i : Int) : Option Instruction :=
  if i < 0 then none else p.code[i.toNat]?

theorem instruction?_eq_some_iff : p.instruction? i = some c ↔ p.instructionAt (.integer i) = .ok c := by
  unfold instruction?
  split_ifs with hi
  · refine iff_of_false nofun ?_
    intro hc
    have hinside := instructionAt_ok hc
    omega
  · obtain ⟨k, rfl⟩ := Int.eq_ofNat_of_zero_le (Int.not_lt.mp hi)
    exact instructionAt_natCast_iff.symm

theorem instructionAt_outside (h : ¬ p.Inside i) :
    p.instructionAt (.integer i) = .error (.indexOutOfBounds "instruction index" i p.size) := by
  have hbounds : ¬ (0 ≤ i ∧ i < p.size) := h
  simp only [instructionAt, position, bind, Except.bind]
  rw [if_neg hbounds]

def occurrences (p : Program) (d : Direction) (i : Int) (c : Instruction) (n : Nat) : Nat :=
  (List.range' 1 n).countP fun k : Nat => p.instruction? (i + d.sign * k) = some c

theorem occurrences_zero (p : Program) (d : Direction) (i : Int) (c : Instruction) : p.occurrences d i c 0 = 0 :=
  rfl

/-- The nearest position counts, and so do those next to it. -/
theorem occurrences_succ (h : p.instructionAt (.integer (i + d.sign)) = .ok c) (c' : Instruction) (n : Nat) :
    p.occurrences d i c' (n + 1) = p.occurrences d (i + d.sign) c' n + if c = c' then 1 else 0 := by
  have hplaces : List.range' 1 (n + 1) = 1 :: (List.range' 1 n).map (1 + ·) := by
    rw [List.range'_succ, List.map_add_range']
  have hnearest : p.instruction? (i + d.sign * (1 : Nat)) = some c := by
    rw [Int.natCast_one, Int.mul_one]
    exact instruction?_eq_some_iff.mpr h
  have hnext : ∀ k : Nat, i + d.sign * (1 + k : Nat) = i + d.sign + d.sign * k := by
    intro k
    rw [Nat.add_comm, d.place_succ]
  simp only [occurrences, hplaces, List.countP_cons, List.countP_map, Function.comp_def, hnearest, hnext,
    Option.some.injEq, decide_eq_true_eq]

theorem depthAfter_add (d : Direction) (hdepth : 0 < depth) (c : Instruction) :
    d.depthAfter depth c + (if c = d.closing then 1 else 0) = depth + if c = d.opening then 1 else 0 := by
  have hne : d.opening ≠ d.closing := by cases d <;> decide
  unfold Direction.depthAfter
  split_ifs with hopening hclosing
  · exact absurd (hopening.symm.trans hclosing) hne
  all_goals omega

/-- A walk behind `depth` open brackets that looks `n` times: what it passes is in the program and leaves some of the
brackets open. -/
structure Passes (p : Program) (d : Direction) (depth : Nat) (i : Int) (n : Nat) : Prop where
  pos : 0 < n
  inside : ∀ k : Nat, 0 < k → k < n → p.Inside (i + d.sign * k)
  opened : ∀ k < n, p.occurrences d i d.closing k < depth + p.occurrences d i d.opening k

/-- Where such a walk comes to its end: at the bracket that closes the last open one, or outside of the program. -/
inductive Lands (p : Program) (d : Direction) (depth : Nat) (i : Int) (n : Nat) : Except Fault Int → Prop where
  | closed (hinside : p.Inside (i + d.sign * n))
      (h : p.occurrences d i d.closing n = depth + p.occurrences d i d.opening n) :
      Lands p d depth i n (.ok (i + d.sign * n))
  | left (h : ¬ p.Inside (i + d.sign * n)) :
      Lands p d depth i n (.error (.indexOutOfBounds "instruction index" (i + d.sign * n) p.size))

theorem passes_one (p : Program) (d : Direction) (hdepth : 0 < depth) (i : Int) : p.Passes d depth i 1 := by
  refine ⟨Nat.one_pos, ?_, ?_⟩
  · intro k hk hk'
    omega
  · intro k hk
    obtain rfl := Nat.lt_one_iff.mp hk
    rw [occurrences_zero]
    omega

section Step
variable (hdepth : 0 < depth) (hc : p.instructionAt (.integer (i + d.sign)) = .ok c)
include hdepth hc

/-- A walk that goes on past the nearest instruction. -/
theorem Passes.cons (h : p.Passes d (d.depthAfter depth c) (i + d.sign) n) : p.Passes d depth i (n + 1) := by
  have hadd := depthAfter_add d hdepth c
  refine ⟨Nat.succ_pos n, ?_, ?_⟩
  · intro k hk hkn
    obtain ⟨k, rfl⟩ := Nat.exists_eq_add_of_le' hk
    rw [d.place_succ]
    cases k with
    | zero =>
      rw [Int.natCast_zero, Int.mul_zero, Int.add_zero]
      exact instructionAt_ok hc
    | succ k => exact h.inside (k + 1) (Nat.succ_pos k) (Nat.lt_of_succ_lt_succ hkn)
  · intro k hkn
    cases k with
    | zero =>
      rw [occurrences_zero]
      omega
    | succ k =>
      have hopened := h.opened k (Nat.lt_of_succ_lt_succ hkn)
      rw [occurrences_succ hc, occurrences_succ hc]
      omega

theorem Lands.cons (h : p.Lands d (d.depthAfter depth c) (i + d.sign) n r) : p.Lands d depth i (n + 1) r := by
  have hadd := depthAfter_add d hdepth c
  cases h with
  | closed hinside h =>
    rw [← d.place_succ] at hinside ⊢
    refine .closed hinside ?_
    rw [occurrences_succ hc, occurrences_succ hc]
    omega
  | left h =>
    rw [← d.place_succ] at h ⊢
    exact .left h

end Step

/-- How every walk goes, told by the instructions next to the position that it starts from. -/
theorem Walks.lands (h : p.Walks d depth j n r) (hdepth : 0 < depth) (hj : j = i + d.sign) :
    p.Passes d depth i n ∧ p.Lands d depth i n r := by
  have hnearest : ∀ i, i + d.sign = i + d.sign * (1 : Nat) := by
    intro i
    rw [Int.natCast_one, Int.mul_one]
  -- on the walk's own steps; each of them moves the position that the places are counted from
  induction h generalizing i with
  | leaves hc =>
    subst hj
    refine ⟨passes_one p d hdepth i, ?_⟩
    have houtside : ¬ p.Inside (i + d.sign) := by
      intro hinside
      obtain ⟨c, hc'⟩ := exists_instructionAt hinside.1 hinside.2
      rw [hc'] at hc
      cases hc
    rw [instructionAt_outside houtside] at hc
    obtain rfl := Except.error.inj hc
    rw [hnearest] at houtside ⊢
    exact .left houtside
  | @arrives depth _ c hc hd =>
    subst hj
    refine ⟨passes_one p d hdepth i, ?_⟩
    have hinside := instructionAt_ok hc
    have hadd := depthAfter_add d hdepth c
    have hlast : p.occurrences d i d.closing 1 = depth + p.occurrences d i d.opening 1 := by
      rw [occurrences_succ hc, occurrences_succ hc, occurrences_zero, occurrences_zero]
      omega
    rw [hnearest] at hinside ⊢
    exact .closed hinside hlast
  | passes hc hd hw ih =>
    subst hj
    obtain ⟨hpasses, hlands⟩ := ih (Nat.pos_of_ne_zero hd) rfl
    exact ⟨hpasses.cons hdepth hc, hlands.cons hdepth hc⟩

/-- Wherever it starts, a walk looks for at most one more instruction than there are. -/
theorem exists_walks_le (p : Program) (d : Direction) (depth : Nat) (i : Int) :
    ∃ n r, n ≤ p.size + 1 ∧ p.Walks d depth i n r := by
  by_cases hinside : p.Inside i
  · obtain ⟨hnonneg, hlt⟩ := hinside
    obtain ⟨n, r, hw, hn⟩ := p.exists_walks d depth i
    have hahead : d.ahead p.size i ≤ p.size := by
      cases d with
      | forward => simp only [Direction.ahead]; omega
      | backward => simp only [Direction.ahead]; omega
    exact ⟨n, r, by omega, hw⟩
  · exact ⟨1, _, Nat.le_add_left 1 _, .leaves (instructionAt_outside hinside)⟩

/-- The `n` positions next to a position are in the program, and one more bracket is closed there than opened. -/
structure ClosesOne (p : Program) (d : Direction) (i : Int) (n : Nat) : Prop where
  pos : 0 < n
  inside : ∀ k : Nat, 0 < k → k ≤ n → p.Inside (i + d.sign * k)
  surplus : p.occurrences d i d.closing n = p.occurrences d i d.opening n + 1

section Passes
variable (h : p.Passes d 1 i n)
include h

/-- Nothing closes on the way of a walk behind one open bracket. -/
theorem Passes.le_of_closesOne {k : Nat} (hk : p.ClosesOne d i k) : n ≤ k := by
  by_contra hlt
  have hopened := h.opened k (Nat.lt_of_not_le hlt)
  have hsurplus := hk.surplus
  omega

theorem Passes.isLeast_closesOne (hinside : p.Inside (i + d.sign * n))
    (hn : p.occurrences d i d.closing n = 1 + p.occurrences d i d.opening n) : IsLeast {n | p.ClosesOne d i n} n := by
  refine ⟨⟨h.pos, ?_, by omega⟩, fun k hk => h.le_of_closesOne hk⟩
  intro k hk hkn
  obtain hlt | rfl := Nat.lt_or_eq_of_le hkn
  · exact h.inside k hk hlt
  · exact hinside

theorem Passes.isLeast_outside (houtside : ¬ p.Inside (i + d.sign * n)) :
    IsLeast {k : Nat | 0 < k ∧ ¬ p.Inside (i + d.sign * k)} n := by
  refine ⟨⟨h.pos, houtside⟩, ?_⟩
  rintro k ⟨hk, hk'⟩
  by_contra hlt
  exact hk' (h.inside k hk (Nat.lt_of_not_le hlt))

theorem Passes.not_closesOne (houtside : ¬ p.Inside (i + d.sign * n)) (k : Nat) : ¬ p.ClosesOne d i k := by
  intro hk
  exact houtside (hk.inside n h.pos (h.le_of_closesOne hk))

end Passes

/-- Both ways in which a jump goes. -/
theorem jumpDistance_cases (p : Program) (i : Int) (d : Direction) :
    (∃ n, IsLeast {n | p.ClosesOne d i n} n ∧ p.jumpDistance i d = .ok (d.sign * n)) ∨
      (∀ n, ¬ p.ClosesOne d i n) ∧ ∃ n, IsLeast {k : Nat | 0 < k ∧ ¬ p.Inside (i + d.sign * k)} n ∧
        p.jumpDistance i d = .error (.indexOutOfBounds "instruction index" (i + d.sign * n) p.size) := by
  -- a jump begins behind the one bracket that it is to close
  obtain ⟨n, r, hn, hw⟩ := p.exists_walks_le d 1 (i + d.sign)
  obtain ⟨hpasses, hlands⟩ := hw.lands Nat.one_pos rfl
  rw [jumpDistance, hw.walk_eq hn]
  cases hlands with
  | closed hinside hclosed =>
    refine Or.inl ⟨n, hpasses.isLeast_closesOne hinside hclosed, ?_⟩
    rw [Except.map, Int.add_comm, Int.add_sub_cancel]
  | left houtside =>
    exact Or.inr ⟨hpasses.not_closesOne houtside, n, hpasses.isLeast_outside houtside, rfl⟩

theorem jumpDistance_ok_iff {distance : Int} : p.jumpDistance i d = .ok distance ↔
    ∃ n : Nat, IsLeast {n | p.ClosesOne d i n} n ∧ distance = d.sign * n := by
  obtain ⟨n, hn, hjump⟩ | ⟨hnone, n, -, hjump⟩ := p.jumpDistance_cases i d
  · rw [hjump]
    constructor
    · intro h
      exact ⟨n, hn, (Except.ok.inj h).symm⟩
    · rintro ⟨m, hm, rfl⟩
      rw [hm.unique hn]
  · rw [hjump]
    refine iff_of_false nofun ?_
    rintro ⟨m, hm, -⟩
    exact hnone m hm.1

theorem jumpDistance_error_iff {f : Fault} : p.jumpDistance i d = .error f ↔
    (∀ n, ¬ p.ClosesOne d i n) ∧ ∃ n : Nat, IsLeast {k : Nat | 0 < k ∧ ¬ p.Inside (i + d.sign * k)} n ∧
      f = .indexOutOfBounds "instruction index" (i + d.sign * n) p.size := by
  obtain ⟨n, hn, hjump⟩ | ⟨hnone, n, hn, hjump⟩ := p.jumpDistance_cases i d
  · rw [hjump]
    refine iff_of_false nofun ?_
    rintro ⟨hnone, -⟩
    exact hnone n hn.1
  · rw [hjump]
    constructor
    · intro h
      exact ⟨hnone, n, hn, (Except.error.inj h).symm⟩
    · rintro ⟨-, m, hm, rfl⟩
      rw [hm.unique hn]

section Elsewhere
variable (hsize : q.size = p.size) (helsewhere : ∀ j, j ≠ i → q.instruction? j = p.instruction? j)
include hsize

theorem inside_of_size : q.Inside j ↔ p.Inside j := by
  rw [Inside, Inside, hsize]

include helsewhere

theorem ClosesOne.elsewhere (h : p.ClosesOne d i n) : q.ClosesOne d i n := by
  have hoccurrences : ∀ c, q.occurrences d i c n = p.occurrences d i c n := by
    intro c
    refine List.countP_congr ?_
    intro k hk
    obtain ⟨hpos, -⟩ := List.mem_range'_1.mp hk
    have hplace : i + d.sign * k ≠ i := by cases d <;> simp only [Direction.sign] <;> omega
    rw [helsewhere _ hplace]
  refine ⟨h.pos, ?_, ?_⟩
  · intro k hk hkn
    exact (inside_of_size hsize).mpr (h.inside k hk hkn)
  · rw [hoccurrences, hoccurrences]
    exact h.surplus

/-- Whether brackets close is decided at the other positions. -/
theorem closesOne_of_elsewhere : q.ClosesOne d i n ↔ p.ClosesOne d i n := by
  constructor
  · intro h
    exact h.elsewhere hsize.symm fun j hj => (helsewhere j hj).symm
  · intro h
    exact h.elsewhere hsize helsewhere

theorem jumpDistance_of_elsewhere : q.jumpDistance i d = p.jumpDistance i d := by
  cases h : p.jumpDistance i d with
  | ok distance =>
    rw [jumpDistance_ok_iff] at h ⊢
    simpa only [closesOne_of_elsewhere hsize helsewhere] using h
  | error f =>
    rw [jumpDistance_error_iff] at h ⊢
    simpa only [closesOne_of_elsewhere hsize helsewhere, inside_of_size hsize, hsize] using h

end Elsewhere

/-- A loop and a bracket behind it that closes nothing. -/
def overclosed : Program :=
  ⟨"[]]", #[.loopOpen, .loopClose, .loopClose]⟩

end Program

end Brainfuck
