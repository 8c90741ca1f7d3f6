import Mathlib.Logic.Equiv.Defs
import Mathlib.Tactic.Choose
import Brainfuck.Proofs.Matching

/-! Pairs of brackets. The loops of a block pair its brackets off, and the jumps of a checked program lead from
each bracket to the other one of its pair. -/
namespace Brainfuck

namespace Block

/-- The positions of the two brackets of each loop, in a block that begins at a position. -/
def pairs (o : Nat) : Block → List (Nat × Nat)
  | done => []
  | action _ rest => rest.pairs (o + 1)
  | loop body rest =>
    (o, o + 1 + body.flatten.length) ::
      (body.pairs (o + 1) ++ rest.pairs (o + 1 + body.flatten.length + 1))

variable {b : Block} {o i j i' j' k : Nat} {c : Instruction}

theorem mem_pairs_loop {body rest : Block} : (i, j) ∈ (loop body rest).pairs o ↔
    (i = o ∧ j = o + 1 + body.flatten.length) ∨ (i, j) ∈ body.pairs (o + 1) ∨
      (i, j) ∈ rest.pairs (o + 1 + body.flatten.length + 1) := by
  simp [pairs]

/-- Pairs lie inside of their block, the opening bracket in front. -/
theorem pairs_bounds (h : (i, j) ∈ b.pairs o) : o ≤ i ∧ i < j ∧ j < o + b.flatten.length := by
  induction b generalizing o with
  | done => simp [pairs] at h
  | action a rest ih =>
    have hrest := ih h
    simp only [flatten, List.length_cons]
    omega
  | loop body rest ihb ihr =>
    simp only [flatten, List.length_cons, List.length_append]
    obtain ⟨rfl, rfl⟩ | h | h := mem_pairs_loop.mp h
    · omega
    · have hbody := ihb h
      omega
    · have hrest := ihr h
      omega

/-- Two pairs are the same, or one lies in front of the other or inside of it. -/
theorem pairs_laminar (h : (i, j) ∈ b.pairs o) (h' : (i', j') ∈ b.pairs o) :
    (i = i' ∧ j = j') ∨ (j < i' ∨ j' < i) ∨ (i < i' ∧ j' < j) ∨ (i' < i ∧ j < j') := by
  induction b generalizing o with
  | done => simp [pairs] at h
  | action a rest ih => exact ih h h'
  | loop body rest ihb ihr =>
    -- the loop is around the pairs of its body, and these lie in front of all others
    obtain ⟨rfl, rfl⟩ | h | h := mem_pairs_loop.mp h
    · obtain ⟨rfl, rfl⟩ | h' | h' := mem_pairs_loop.mp h'
      · omega
      · have hbody := pairs_bounds h'
        omega
      · have hrest := pairs_bounds h'
        omega
    · have hbody := pairs_bounds h
      obtain ⟨rfl, rfl⟩ | h' | h' := mem_pairs_loop.mp h'
      · omega
      · exact ihb h h'
      · have hrest := pairs_bounds h'
        omega
    · have hrest := pairs_bounds h
      obtain ⟨rfl, rfl⟩ | h' | h' := mem_pairs_loop.mp h'
      · omega
      · have hbody := pairs_bounds h'
        omega
      · exact ihr h h'

/-- Every bracket belongs to a pair. -/
theorem exists_pair (hc : b.flatten[k]? = some c) (hbracket : c = .loopOpen ∨ c = .loopClose) (o : Nat) :
    (c = .loopOpen ∧ ∃ j, (o + k, j) ∈ b.pairs o) ∨ (c = .loopClose ∧ ∃ i, (i, o + k) ∈ b.pairs o) := by
  induction b generalizing o k with
  | done => simp [flatten] at hc
  | action a rest ih =>
    cases k with
    | zero =>
      obtain rfl := Option.some.inj hc
      exact absurd hbracket (by simp [a.instruction_ne_open, a.instruction_ne_close])
    | succ k =>
      have hrest := ih (k := k) (by simpa [flatten] using hc) (o + 1)
      rwa [show o + 1 + k = o + (k + 1) by omega] at hrest
  | loop body rest ihb ihr =>
    simp only [mem_pairs_loop]
    cases k with
    | zero =>
      obtain rfl := Option.some.inj hc
      exact Or.inl ⟨rfl, _, Or.inl ⟨rfl, rfl⟩⟩
    | succ k =>
      simp only [flatten, List.getElem?_cons_succ] at hc
      obtain hk | rfl | hk := Nat.lt_trichotomy k body.flatten.length
      · rw [List.getElem?_append_left hk] at hc
        have hbody := ihb hc (o + 1)
        rw [show o + 1 + k = o + (k + 1) by omega] at hbody
        obtain ⟨h, j, hj⟩ | ⟨h, i, hi⟩ := hbody
        · exact Or.inl ⟨h, j, Or.inr (Or.inl hj)⟩
        · exact Or.inr ⟨h, i, Or.inr (Or.inl hi)⟩
      · rw [List.getElem?_append_right (Nat.le_refl _), Nat.sub_self] at hc
        obtain rfl := Option.some.inj hc
        exact Or.inr ⟨rfl, o, Or.inl ⟨rfl, by omega⟩⟩
      · obtain ⟨n, rfl⟩ := Nat.exists_eq_add_of_lt hk
        rw [List.getElem?_append_right (by omega),
          show body.flatten.length + n + 1 - body.flatten.length = n + 1 by omega] at hc
        have hrest := ihr (k := n) (by simpa using hc) (o + 1 + body.flatten.length + 1)
        rw [show o + 1 + body.flatten.length + 1 + n = o + (body.flatten.length + n + 1 + 1) by omega] at hrest
        obtain ⟨h, j, hj⟩ | ⟨h, i, hi⟩ := hrest
        · exact Or.inl ⟨h, j, Or.inr (Or.inr hj)⟩
        · exact Or.inr ⟨h, i, Or.inr (Or.inr hi)⟩

/-- Between the brackets of a pair stands a block. -/
theorem exists_body_of_mem_pairs {p : Program} (hb : p.Holds o b.flatten) (h : (i, j) ∈ b.pairs o) :
    ∃ (body : Block) (tail : List Instruction),
      p.Holds i (.loopOpen :: (body.flatten ++ .loopClose :: tail)) ∧ j = i + 1 + body.flatten.length := by
  induction b generalizing o with
  | done => simp [pairs] at h
  | action a rest ih => exact ih (o := o + 1) hb.tail h
  | loop body rest ihb ihr =>
    obtain ⟨rfl, rfl⟩ | h | h := mem_pairs_loop.mp h
    · exact ⟨body, rest.flatten, hb, rfl⟩
    · exact ihb (o := o + 1) hb.tail.left h
    · exact ihr (o := o + 1 + body.flatten.length + 1) hb.tail.right.tail h

end Block

namespace Program
variable {p : Program} {b : Block} {i j k : Nat} {c : Instruction}

/-- Two brackets with balanced instructions between them, each of which the jump from the other one leads to. -/
structure Partners (p : Program) (i j : Nat) : Prop where
  opening : p.code[i]? = some .loopOpen
  closing : p.code[j]? = some .loopClose
  lt : i < j
  forward : p.jumpDistance i .forward = .ok ((j : Int) - i)
  backward : p.jumpDistance j .backward = .ok ((i : Int) - j)
  between : Balanced ((p.code.toList.drop (i + 1)).take (j - (i + 1)))

def Places (p : Program) (c : Instruction) : Type :=
  { k : Nat // p.code[k]? = some c }

/-- Brackets match as the loops of the only block nest that the program is the row of: `e` takes each opening
bracket to its partner. -/
structure Matched (p : Program) (b : Block) (e : p.Places .loopOpen ≃ p.Places .loopClose) : Prop where
  nesting : ∀ b' : Block, p.code.toList = b'.flatten ↔ b' = b
  pairs : ∀ i j, (i.1, j.1) ∈ b.pairs 0 ↔ e i = j
  partners : ∀ i, p.Partners i.1 (e i).1
  laminar : ∀ i i', i = i' ∨ ((e i).1 < i'.1 ∨ (e i').1 < i.1) ∨ (i.1 < i'.1 ∧ (e i').1 < (e i).1) ∨
    (i'.1 < i.1 ∧ (e i).1 < (e i').1)

theorem partners_of_mem_pairs (hb : p.code.toList = b.flatten) (h : (i, j) ∈ b.pairs 0) :
    p.Partners i j := by
  have hholds : p.Holds ((0 : Nat) : Int) b.flatten := hb ▸ p.holds_zero
  obtain ⟨body, tail, hloop, rfl⟩ := Block.exists_body_of_mem_pairs hholds h
  have hbody : p.Holds ((i + 1 : Nat) : Int) body.flatten := hloop.tail.left
  have hforward := jumpDistance_forward hloop
  have hbackward := jumpDistance_backward hloop
  constructor
  · exact instructionAt_natCast_iff.mp hloop.head
  · exact instructionAt_natCast_iff.mp hloop.tail.right.head
  · omega
  · rw [hforward]
    congr 1
    omega
  · rw [show ((i + 1 + body.flatten.length : Nat) : Int) = (i : Int) + 1 + body.flatten.length by omega,
      hbackward]
    congr 1
    omega
  · rw [Nat.add_sub_cancel_left, hbody.take_drop]
    exact (balanced_iff_exists_block _).mpr ⟨body, rfl⟩

/-- A bracket has one partner only, since there is one way to jump. -/
theorem Partners.right_unique {j' : Nat} (h : p.Partners i j) (h' : p.Partners i j') : j = j' := by
  have hdistance := Except.ok.inj (h.forward.symm.trans h'.forward)
  omega

theorem Partners.left_unique {i' : Nat} (h : p.Partners i j) (h' : p.Partners i' j) : i = i' := by
  have hdistance := Except.ok.inj (h.backward.symm.trans h'.backward)
  omega

theorem exists_partner (hb : p.code.toList = b.flatten) (hc : p.code[k]? = some c)
    (hbracket : c = .loopOpen ∨ c = .loopClose) :
    (c = .loopOpen ∧ ∃ j, (k, j) ∈ b.pairs 0) ∨ (c = .loopClose ∧ ∃ i, (i, k) ∈ b.pairs 0) := by
  rw [← Array.getElem?_toList, hb] at hc
  have hpair := Block.exists_pair hc hbracket 0
  rwa [Nat.zero_add] at hpair

/-- The brackets of a checked program match, and the jumps lead from each bracket to its partner. -/
theorem exists_matched (p : Program) (hv : p.validate = .ok ()) : ∃ b e, p.Matched b e := by
  obtain ⟨-, b, hb⟩ := (validate_ok_iff p).mp hv
  have hclose : ∀ i : p.Places .loopOpen, ∃ j, (i.1, j) ∈ b.pairs 0 := by
    intro i
    obtain ⟨-, hj⟩ | ⟨h, -⟩ := exists_partner hb i.2 (Or.inl rfl)
    · exact hj
    · cases h
  have hopen : ∀ j : p.Places .loopClose, ∃ i, (i, j.1) ∈ b.pairs 0 := by
    intro j
    obtain ⟨h, -⟩ | ⟨-, hi⟩ := exists_partner hb j.2 (Or.inr rfl)
    · cases h
    · exact hi
  choose closer hcloser using hclose
  choose opener hopener using hopen
  let e : p.Places .loopOpen ≃ p.Places .loopClose :=
    { toFun := fun i => ⟨closer i, (partners_of_mem_pairs hb (hcloser i)).closing⟩
      invFun := fun j => ⟨opener j, (partners_of_mem_pairs hb (hopener j)).opening⟩
      left_inv := by
        intro i
        exact Subtype.ext ((partners_of_mem_pairs hb (hopener _)).left_unique
          (partners_of_mem_pairs hb (hcloser i)))
      right_inv := by
        intro j
        exact Subtype.ext ((partners_of_mem_pairs hb (hcloser _)).right_unique
          (partners_of_mem_pairs hb (hopener j))) }
  have hpairs : ∀ i, (i.1, (e i).1) ∈ b.pairs 0 := hcloser
  have hpartners : ∀ i, p.Partners i.1 (e i).1 := fun i => partners_of_mem_pairs hb (hpairs i)
  refine ⟨b, e, ?_⟩
  constructor
  · intro b'
    constructor
    · intro hb'
      exact Block.flatten_injective (hb'.symm.trans hb)
    · rintro rfl
      exact hb
  · intro i j
    constructor
    · intro hpair
      exact Subtype.ext ((hpartners i).right_unique (partners_of_mem_pairs hb hpair))
    · rintro rfl
      exact hpairs i
  · exact hpartners
  · intro i i'
    exact (Block.pairs_laminar (hpairs i) (hpairs i')).imp_left fun h => Subtype.ext h.1

def nested : Program :=
  ⟨"[[]+[-]]", #[.loopOpen, .loopOpen, .loopClose, .increment, .loopOpen, .decrement, .loopClose, .loopClose]⟩

theorem exists_matched_nested : nested.validate = .ok () ∧ ∃ b e, nested.Matched b e :=
  ⟨rfl, exists_matched nested rfl⟩

end Program

end Brainfuck
