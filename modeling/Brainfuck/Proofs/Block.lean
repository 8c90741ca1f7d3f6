import Brainfuck.Program

/-! Blocks: programs as trees of actions and loops. A row of instructions is the row of a block exactly
if its brackets are balanced, and then of one block only. -/
namespace Brainfuck

/-- The instructions that are no brackets. -/
inductive Action where
  | right
  | left
  | increment
  | decrement
  | read
  | write
  deriving DecidableEq, Repr

def Action.instruction : Action → Instruction
  | right => .right
  | left => .left
  | increment => .increment
  | decrement => .decrement
  | read => .read
  | write => .write

/-- Actions and loops in a row. -/
inductive Block where
  | done
  | action (a : Action) (rest : Block)
  | loop (body rest : Block)
  deriving DecidableEq, Repr

/-- The instructions of a block, a loop between brackets. -/
def Block.flatten : Block → List Instruction
  | done => []
  | action a rest => a.instruction :: rest.flatten
  | loop body rest => .loopOpen :: (body.flatten ++ .loopClose :: rest.flatten)

namespace Action

theorem instruction_injective {a b : Action} (h : a.instruction = b.instruction) : a = b := by
  cases a <;> cases b <;> first | rfl | cases h

theorem instruction_ne_open (a : Action) : a.instruction ≠ .loopOpen := by
  cases a <;> exact fun h => nomatch h

theorem instruction_ne_close (a : Action) : a.instruction ≠ .loopClose := by
  cases a <;> exact fun h => nomatch h

end Action

theorem Instruction.action_or_bracket (c : Instruction) :
    (∃ a : Action, c = a.instruction) ∨ c = .loopOpen ∨ c = .loopClose := by
  cases c with
  | right => exact Or.inl ⟨.right, rfl⟩
  | left => exact Or.inl ⟨.left, rfl⟩
  | increment => exact Or.inl ⟨.increment, rfl⟩
  | decrement => exact Or.inl ⟨.decrement, rfl⟩
  | read => exact Or.inl ⟨.read, rfl⟩
  | write => exact Or.inl ⟨.write, rfl⟩
  | loopOpen => exact Or.inr (Or.inl rfl)
  | loopClose => exact Or.inr (Or.inr rfl)

/-- What stands at a position divides a row. -/
theorem split_at {cs : List Instruction} {k : Nat} {c : Instruction} (h : cs[k]? = some c) :
    cs = cs.take k ++ c :: cs.drop (k + 1) := by
  obtain ⟨hk, rfl⟩ := List.getElem?_eq_some_iff.mp h
  rw [List.getElem_cons_drop, List.take_append_drop]

namespace Block

/-- In front of nothing or of a closing bracket, a block can be told from what follows it. -/
theorem flatten_append_inj {b c : Block} {xs ys : List Instruction}
    (hx : ∀ i ∈ xs.head?, i = .loopClose) (hy : ∀ i ∈ ys.head?, i = .loopClose)
    (h : b.flatten ++ xs = c.flatten ++ ys) : b = c ∧ xs = ys := by
  induction b generalizing c xs ys with
  | done =>
    cases c with
    | done => exact ⟨rfl, h⟩
    | action a rest =>
      subst h
      exact absurd (hx a.instruction rfl) a.instruction_ne_close
    | loop body rest =>
      subst h
      cases hx .loopOpen rfl
  | action a rest ih =>
    cases c with
    | done =>
      subst h
      exact absurd (hy a.instruction rfl) a.instruction_ne_close
    | action a' rest' =>
      obtain ⟨ha, hrest⟩ := List.cons.inj h
      obtain ⟨rfl, hxy⟩ := ih hx hy hrest
      exact ⟨by rw [Action.instruction_injective ha], hxy⟩
    | loop body rest' => exact absurd (List.cons.inj h).1 a.instruction_ne_open
  | loop body rest ihb ihr =>
    cases c with
    | done =>
      subst h
      cases hy .loopOpen rfl
    | action a rest' => exact absurd (List.cons.inj h).1.symm a.instruction_ne_open
    | loop body' rest' =>
      have hbody : body.flatten ++ .loopClose :: (rest.flatten ++ xs) =
          body'.flatten ++ .loopClose :: (rest'.flatten ++ ys) := by
        simpa [flatten] using h
      obtain ⟨rfl, htail⟩ := ihb (by simp) (by simp) hbody
      obtain ⟨rfl, hxy⟩ := ihr hx hy (List.cons.inj htail).2
      exact ⟨rfl, hxy⟩

theorem flatten_injective {b c : Block} (h : b.flatten = c.flatten) : b = c := by
  have happend : b.flatten ++ [] = c.flatten ++ [] := by simpa using h
  exact (flatten_append_inj (by simp) (by simp) happend).1

/-- An opening bracket in a block has its loop behind it. -/
theorem exists_body_of_open {b : Block} {pre post : List Instruction}
    (h : b.flatten = pre ++ .loopOpen :: post) :
    ∃ (body : Block) (tail : List Instruction), post = body.flatten ++ .loopClose :: tail := by
  induction b generalizing pre post with
  | done => simp [flatten] at h
  | action a rest ih =>
    cases pre with
    | nil => exact absurd (List.cons.inj h).1 a.instruction_ne_open
    | cons c pre => exact ih (List.cons.inj h).2
  | loop body rest ihb ihr =>
    cases pre with
    | nil => exact ⟨body, rest.flatten, (List.cons.inj h).2.symm⟩
    | cons c pre =>
      obtain ⟨ys, rfl, htail⟩ | ⟨ys, hbody, htail⟩ := List.append_eq_append_iff.mp (List.cons.inj h).2
      · cases ys with
        | nil => cases (List.cons.inj htail).1
        | cons c ys => exact ihr (List.cons.inj htail).2
      · cases ys with
        | nil => cases (List.cons.inj htail).1
        | cons c ys =>
          obtain ⟨rfl, rfl⟩ := List.cons.inj htail
          obtain ⟨inner, tail, rfl⟩ := ihb hbody
          exact ⟨inner, tail ++ .loopClose :: rest.flatten, by simp⟩

/-- A closing bracket in a block has its loop in front of it. -/
theorem exists_body_of_close {b : Block} {pre post : List Instruction}
    (h : b.flatten = pre ++ .loopClose :: post) :
    ∃ (front : List Instruction) (body : Block), pre = front ++ .loopOpen :: body.flatten := by
  induction b generalizing pre post with
  | done => simp [flatten] at h
  | action a rest ih =>
    cases pre with
    | nil => exact absurd (List.cons.inj h).1 a.instruction_ne_close
    | cons c pre =>
      obtain ⟨front, body, rfl⟩ := ih (List.cons.inj h).2
      exact ⟨c :: front, body, rfl⟩
  | loop body rest ihb ihr =>
    cases pre with
    | nil => cases (List.cons.inj h).1
    | cons c pre =>
      obtain ⟨rfl, htail⟩ := List.cons.inj h
      obtain ⟨ys, rfl, hrest⟩ | ⟨ys, hbody, hpost⟩ := List.append_eq_append_iff.mp htail
      · cases ys with
        | nil => exact ⟨[], body, by simp⟩
        | cons c ys =>
          obtain ⟨rfl, hinner⟩ := List.cons.inj hrest
          obtain ⟨front, inner, rfl⟩ := ihr hinner
          exact ⟨.loopOpen :: (body.flatten ++ .loopClose :: front), inner, by simp⟩
      · cases ys with
        | nil => exact ⟨[], body, by simp [hbody]⟩
        | cons c ys =>
          obtain ⟨rfl, -⟩ := List.cons.inj hpost
          obtain ⟨front, inner, rfl⟩ := ihb hbody
          exact ⟨.loopOpen :: front, inner, rfl⟩

end Block

end Brainfuck
