import Brainfuck.Proofs.Block

/-! Balanced brackets. Counting brackets, reading a row as a block and the check of a program come to
the same verdict. -/
namespace Brainfuck

/-- No beginning of a row closes more brackets than it opens, and the whole row closes as many. -/
def Balanced (cs : List Instruction) : Prop :=
  (∀ n ≤ cs.length, (cs.take n).count .loopClose ≤ (cs.take n).count .loopOpen) ∧
    cs.count .loopClose = cs.count .loopOpen

instance (cs : List Instruction) : Decidable (Balanced cs) :=
  inferInstanceAs (Decidable (_ ∧ _))

/-- The same behind `k` open brackets. -/
def BalancedFrom (k : Nat) (cs : List Instruction) : Prop :=
  (∀ n ≤ cs.length, (cs.take n).count .loopClose ≤ k + (cs.take n).count .loopOpen) ∧
    cs.count .loopClose = k + cs.count .loopOpen

theorem balanced_iff_from_zero (cs : List Instruction) : Balanced cs ↔ BalancedFrom 0 cs := by
  simp [Balanced, BalancedFrom]

/-- A row that is a block, then a closing bracket for each of `k` open ones with a block behind it. -/
def Closes : Nat → List Instruction → Prop
  | 0, cs => ∃ b : Block, cs = b.flatten
  | k + 1, cs => ∃ (b : Block) (rest : List Instruction),
      cs = b.flatten ++ .loopClose :: rest ∧ Closes k rest

section BalancedFrom
variable {k : Nat} {cs : List Instruction}

@[simp] theorem balancedFrom_nil : BalancedFrom k [] ↔ k = 0 := by
  simp [BalancedFrom, eq_comm]

private theorem forall_take_cons {P : List Instruction → Prop} (c : Instruction) (h : P []) :
    (∀ n ≤ (c :: cs).length, P ((c :: cs).take n)) ↔ ∀ n ≤ cs.length, P (c :: cs.take n) := by
  constructor
  · intro hp n hn
    exact hp (n + 1) (Nat.succ_le_succ hn)
  · intro hp n hn
    cases n with
    | zero => exact h
    | succ n => exact hp n (Nat.le_of_succ_le_succ hn)

@[simp] theorem balancedFrom_action (a : Action) :
    BalancedFrom k (a.instruction :: cs) ↔ BalancedFrom k cs := by
  unfold BalancedFrom
  rw [forall_take_cons (P := fun xs => xs.count .loopClose ≤ k + xs.count .loopOpen) _ (by simp)]
  simp [List.count_cons_of_ne, a.instruction_ne_open, a.instruction_ne_close]

@[simp] theorem balancedFrom_open :
    BalancedFrom k (.loopOpen :: cs) ↔ BalancedFrom (k + 1) cs := by
  unfold BalancedFrom
  rw [forall_take_cons (P := fun xs => xs.count .loopClose ≤ k + xs.count .loopOpen) _ (by simp)]
  simp [Nat.add_assoc, Nat.add_comm 1]

@[simp] theorem balancedFrom_close :
    BalancedFrom (k + 1) (.loopClose :: cs) ↔ BalancedFrom k cs := by
  unfold BalancedFrom
  rw [forall_take_cons (P := fun xs => xs.count .loopClose ≤ k + 1 + xs.count .loopOpen) _ (by simp)]
  simp [Nat.add_right_comm k 1]

theorem not_balancedFrom_zero_close : ¬ BalancedFrom 0 (.loopClose :: cs) := by
  intro h
  have := h.1 1 (by simp)
  simp at this

end BalancedFrom

section Closes
variable {k : Nat} {cs : List Instruction}

@[simp] theorem closes_nil : Closes k [] ↔ k = 0 := by
  cases k with
  | zero => exact iff_of_true ⟨.done, rfl⟩ rfl
  | succ k => simp [Closes]

@[simp] theorem closes_action (a : Action) : Closes k (a.instruction :: cs) ↔ Closes k cs := by
  constructor
  · intro h
    cases k with
    | zero =>
      obtain ⟨b, hb⟩ := h
      cases b with
      | done => cases hb
      | action a' rest => exact ⟨rest, (List.cons.inj hb).2⟩
      | loop body rest => exact absurd (List.cons.inj hb).1 a.instruction_ne_open
    | succ k =>
      obtain ⟨b, tail, hb, htail⟩ := h
      cases b with
      | done => exact absurd (List.cons.inj hb).1 a.instruction_ne_close
      | action a' rest => exact ⟨rest, tail, (List.cons.inj hb).2, htail⟩
      | loop body rest => exact absurd (List.cons.inj hb).1 a.instruction_ne_open
  · intro h
    cases k with
    | zero =>
      obtain ⟨b, rfl⟩ := h
      exact ⟨.action a b, rfl⟩
    | succ k =>
      obtain ⟨b, tail, rfl, htail⟩ := h
      exact ⟨.action a b, tail, rfl, htail⟩

@[simp] theorem closes_open : Closes k (.loopOpen :: cs) ↔ Closes (k + 1) cs := by
  constructor
  · intro h
    cases k with
    | zero =>
      obtain ⟨b, hb⟩ := h
      cases b with
      | done => cases hb
      | action a rest => exact absurd (List.cons.inj hb).1.symm a.instruction_ne_open
      | loop body rest => exact ⟨body, rest.flatten, (List.cons.inj hb).2, rest, rfl⟩
    | succ k =>
      obtain ⟨b, tail, hb, htail⟩ := h
      cases b with
      | done => cases (List.cons.inj hb).1
      | action a rest => exact absurd (List.cons.inj hb).1.symm a.instruction_ne_open
      | loop body rest =>
        refine ⟨body, rest.flatten ++ .loopClose :: tail, ?_, rest, tail, rfl, htail⟩
        simpa [Block.flatten] using hb
  · rintro ⟨body, rest, rfl, h⟩
    cases k with
    | zero =>
      obtain ⟨b, rfl⟩ := h
      exact ⟨.loop body b, rfl⟩
    | succ k =>
      obtain ⟨b, tail, rfl, htail⟩ := h
      exact ⟨.loop body b, tail, by simp [Block.flatten], htail⟩

@[simp] theorem closes_close : Closes (k + 1) (.loopClose :: cs) ↔ Closes k cs := by
  constructor
  · rintro ⟨b, tail, hb, htail⟩
    cases b with
    | done =>
      obtain ⟨-, rfl⟩ := List.cons.inj hb
      exact htail
    | action a rest => exact absurd (List.cons.inj hb).1.symm a.instruction_ne_close
    | loop body rest => cases (List.cons.inj hb).1
  · intro h
    exact ⟨.done, cs, rfl, h⟩

theorem not_closes_zero_close : ¬ Closes 0 (.loopClose :: cs) := by
  rintro ⟨b, hb⟩
  cases b with
  | done => cases hb
  | action a rest => exact absurd (List.cons.inj hb).1.symm a.instruction_ne_close
  | loop body rest => cases (List.cons.inj hb).1

end Closes

theorem closes_iff_balancedFrom (k : Nat) (cs : List Instruction) :
    Closes k cs ↔ BalancedFrom k cs := by
  induction cs generalizing k with
  | nil => simp
  | cons c cs ih =>
    -- both sides read the first instruction in the same way, and `k` follows the brackets
    obtain ⟨a, rfl⟩ | rfl | rfl := c.action_or_bracket
    · simp [ih]
    · simp [ih]
    · cases k with
      | zero => exact iff_of_false not_closes_zero_close not_balancedFrom_zero_close
      | succ k => simp [ih]

/-- Balanced rows are the rows of blocks. -/
theorem balanced_iff_exists_block (cs : List Instruction) :
    Balanced cs ↔ ∃ b : Block, cs = b.flatten :=
  (balanced_iff_from_zero cs).trans (closes_iff_balancedFrom 0 cs).symm

namespace Program

theorem checkBrackets_action (opened : List Nat) (i : Nat) (a : Action) (cs : List Instruction) :
    checkBrackets opened i (a.instruction :: cs) = checkBrackets opened (i + 1) cs := by
  cases opened <;> cases a <;> rfl

theorem checkBrackets_open (opened : List Nat) (i : Nat) (cs : List Instruction) :
    checkBrackets opened i (.loopOpen :: cs) = checkBrackets (i :: opened) (i + 1) cs := by
  cases opened <;> rfl

theorem checkBrackets_ok_iff (opened : List Nat) (i : Nat) (cs : List Instruction) :
    checkBrackets opened i cs = .ok () ↔ Closes opened.length cs := by
  induction cs generalizing opened i with
  | nil => cases opened <;> simp [checkBrackets]
  | cons c cs ih =>
    obtain ⟨a, rfl⟩ | rfl | rfl := c.action_or_bracket
    · rw [checkBrackets_action, ih, closes_action]
    · rw [checkBrackets_open, ih, closes_open, List.length_cons]
    · cases opened with
      | nil => exact iff_of_false (fun h => nomatch h) not_closes_zero_close
      | cons o opened => exact (ih opened (i + 1)).trans closes_close.symm

/-- A program passes its check if it has instructions and they are the row of a block. -/
theorem validate_ok_iff (p : Program) :
    p.validate = .ok () ↔ p.code.toList ≠ [] ∧ ∃ b : Block, p.code.toList = b.flatten := by
  have hempty : p.code.isEmpty = true ↔ p.code.toList = [] := by simp
  unfold validate
  split
  · next h => exact iff_of_false (fun h' => nomatch h') fun h' => h'.1 (hempty.mp h)
  · next h =>
    have hne : p.code.toList ≠ [] := mt hempty.mpr h
    rw [checkBrackets_ok_iff]
    exact (and_iff_right hne).symm

theorem checkBrackets_kind {opened : List Nat} {i : Nat} {cs : List Instruction} {f : Fault}
    (h : checkBrackets opened i cs = .error f) : f.kind = .invalidProgram := by
  fun_induction checkBrackets opened i cs with
  | case1 i => cases h
  | case2 => cases h; rfl
  | case3 opened i cs ih => exact ih h
  | case4 => cases h; rfl
  | case5 i j opened cs ih => exact ih h
  | case6 opened i c cs _ _ _ ih => exact ih h

/-- Whatever a program fails its check for, it is the fault of the program. -/
theorem validate_error_kind {p : Program} {f : Fault} (h : p.validate = .error f) :
    f.kind = .invalidProgram := by
  unfold validate at h
  split at h
  · cases h
    rfl
  · exact checkBrackets_kind h

end Program

end Brainfuck
