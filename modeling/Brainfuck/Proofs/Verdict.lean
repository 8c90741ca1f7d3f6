import Mathlib.Tactic.ByContra
import Brainfuck.Proofs.Balance

/-! Verdicts. The check of a program accepts the words of a grammar. In any other word it blames the bracket that
closes too much or, if there is none, the last one that stays open. -/
namespace Brainfuck

/-- The words of a grammar: nothing, an instruction that is no bracket in front of a word, and a word between
brackets in front of a word. -/
inductive Derives : List Instruction → Prop where
  | nil : Derives []
  | plain {c : Instruction} {w : List Instruction} (hopen : c ≠ .loopOpen) (hclose : c ≠ .loopClose)
      (hw : Derives w) : Derives (c :: w)
  | loop {v w : List Instruction} (hv : Derives v) (hw : Derives w) :
      Derives (.loopOpen :: (v ++ .loopClose :: w))

/-- The words of the grammar are the rows of blocks. -/
theorem derives_iff_exists_block (w : List Instruction) : Derives w ↔ ∃ b : Block, w = b.flatten := by
  constructor
  · intro h
    induction h with
    | nil => exact ⟨.done, rfl⟩
    | @plain c w hopen hclose _ ih =>
      obtain ⟨b, rfl⟩ := ih
      obtain ⟨a, rfl⟩ | rfl | rfl := c.action_or_bracket
      · exact ⟨.action a b, rfl⟩
      · exact absurd rfl hopen
      · exact absurd rfl hclose
    | loop _ _ ihv ihw =>
      obtain ⟨body, rfl⟩ := ihv
      obtain ⟨rest, rfl⟩ := ihw
      exact ⟨.loop body rest, rfl⟩
  · rintro ⟨b, rfl⟩
    induction b with
    | done => exact .nil
    | action a rest ih => exact .plain a.instruction_ne_open a.instruction_ne_close ih
    | loop body rest ihb ihr => exact .loop ihb ihr

/-- Some beginning of a row closes more brackets than it opens. -/
def Overclosed (w : List Instruction) : Prop :=
  ∃ n ≤ w.length, (w.take n).count .loopOpen < (w.take n).count .loopClose

/-- The position of the bracket that ends the shortest beginning which closes more brackets than it opens. -/
structure FirstExcess (w : List Instruction) (i : Nat) : Prop where
  bracket : w[i]? = some .loopClose
  excess : (w.take (i + 1)).count .loopOpen < (w.take (i + 1)).count .loopClose
  least : ∀ n ≤ i, (w.take n).count .loopClose ≤ (w.take n).count .loopOpen

structure Unclosed (w : List Instruction) (i : Nat) : Prop where
  bracket : w[i]? = some .loopOpen
  behind : ∀ n, ((w.drop (i + 1)).take n).count .loopClose ≤ ((w.drop (i + 1)).take n).count .loopOpen

structure LastUnclosed (w : List Instruction) (i : Nat) : Prop extends Unclosed w i where
  last : ∀ j, Unclosed w j → j ≤ i

section Overclosed
variable {w w' : List Instruction} {n : Nat}

theorem count_le_of_not_overclosed (h : ¬ Overclosed w) (n : Nat) :
    (w.take n).count .loopClose ≤ (w.take n).count .loopOpen := by
  by_contra hlt
  obtain hn | hn := Nat.le_total n w.length
  · exact h ⟨n, hn, Nat.lt_of_not_le hlt⟩
  · rw [List.take_of_length_le hn, ← List.take_length (l := w)] at hlt
    exact h ⟨w.length, Nat.le_refl _, Nat.lt_of_not_le hlt⟩

theorem not_overclosed_append (h : ¬ Overclosed w) (h' : ¬ Overclosed w') : ¬ Overclosed (w ++ w') := by
  rintro ⟨n, -, hn⟩
  rw [List.take_append, List.count_append, List.count_append] at hn
  have hleft := count_le_of_not_overclosed h n
  have hright := count_le_of_not_overclosed h' (n - w.length)
  omega

theorem not_overclosed_open : ¬ Overclosed [.loopOpen] := by
  rintro ⟨n, hn, hlt⟩
  match n, hn with
  | 0, _ => simp at hlt
  | 1, _ => simp at hlt

theorem Balanced.not_overclosed (h : Balanced w) : ¬ Overclosed w := by
  rintro ⟨n, hn, hlt⟩
  exact Nat.not_le_of_lt hlt (h.1 n hn)

theorem Block.not_overclosed (b : Block) : ¬ Overclosed b.flatten :=
  ((balanced_iff_exists_block _).mpr ⟨b, rfl⟩).not_overclosed

theorem Block.count_eq (b : Block) : b.flatten.count .loopClose = b.flatten.count .loopOpen :=
  ((balanced_iff_exists_block _).mpr ⟨b, rfl⟩).2

end Overclosed

def Block.append : Block → Block → Block
  | .done, c => c
  | .action a rest, c => .action a (rest.append c)
  | .loop body rest, c => .loop body (rest.append c)

theorem Block.flatten_append (b c : Block) : (b.append c).flatten = b.flatten ++ c.flatten := by
  induction b with
  | done => rfl
  | action a rest ih => simp [append, flatten, ih]
  | loop body rest _ ih => simp [append, flatten, ih]

/-- A row of blocks with an open bracket in front of each but the first one, and the positions of these brackets,
the innermost first. -/
inductive Opens : List Nat → List Instruction → Prop where
  | block (b : Block) : Opens [] b.flatten
  | opened {os : List Nat} {w : List Instruction} (h : Opens os w) (b : Block) :
      Opens (w.length :: os) (w ++ .loopOpen :: b.flatten)

section Opens
variable {os : List Nat} {o : Nat} {w : List Instruction}

/-- The last block of a row may grow. -/
theorem Opens.append (h : Opens os w) (c : Block) : Opens os (w ++ c.flatten) := by
  cases h with
  | block b =>
    rw [← Block.flatten_append]
    exact .block _
  | opened h b =>
    rw [List.append_assoc, List.cons_append, ← Block.flatten_append]
    exact .opened h _

theorem Opens.not_overclosed (h : Opens os w) : ¬ Overclosed w := by
  induction h with
  | block b => exact b.not_overclosed
  | opened h b ih => exact not_overclosed_append ih (not_overclosed_append not_overclosed_open b.not_overclosed)

end Opens

/-- What a check finds in a row: a block, a block with a closing bracket behind it, or an open bracket with a block
behind it. -/
inductive Judged : List Instruction → Except Fault Unit → Prop where
  | block (b : Block) : Judged b.flatten (.ok ())
  | excess (b : Block) (w : List Instruction) :
      Judged (b.flatten ++ .loopClose :: w) (.error (.unmatchedClose b.flatten.length))
  | unclosed {os : List Nat} {w : List Instruction} (h : Opens os w) (b : Block) :
      Judged (w ++ .loopOpen :: b.flatten) (.error (.unmatchedOpen w.length))

/-- The scan knows the open brackets behind it, and goes on from there. -/
theorem Opens.judged {os : List Nat} {w : List Instruction} (h : Opens os w) (cs : List Instruction) :
    Judged (w ++ cs) (Program.checkBrackets os w.length cs) := by
  induction cs generalizing os w with
  | nil =>
    rw [List.append_nil]
    cases h with
    | block b => exact .block b
    | opened h b => exact .unclosed h b
  | cons c cs ih =>
    obtain ⟨a, rfl⟩ | rfl | rfl := c.action_or_bracket
    · have hnext := ih (h.append (.action a .done))
      simp only [Block.flatten, List.length_append, List.append_assoc] at hnext
      rw [Program.checkBrackets_action]
      exact hnext
    · have hnext := ih (.opened h .done)
      simp only [Block.flatten, List.length_append, List.append_assoc] at hnext
      rw [Program.checkBrackets_open]
      exact hnext
    · cases h with
      | block b => exact .excess b cs
      | @opened os w h b =>
        -- the bracket makes a loop of the last block
        have hrow : w ++ .loopOpen :: b.flatten ++ .loopClose :: cs =
            w ++ (Block.loop b .done).flatten ++ cs := by simp [Block.flatten]
        have hlength : (w ++ .loopOpen :: b.flatten).length + 1 =
            (w ++ (Block.loop b .done).flatten).length := by simp [Block.flatten]; omega
        rw [hrow, Program.checkBrackets, hlength]
        exact ih (h.append (.loop b .done))

section Blame
variable {os : List Nat} {w : List Instruction}

/-- An open bracket in front of a block opens one more than is closed. -/
theorem Opens.count_lt (h : Opens os w) (b : Block) :
    (w ++ .loopOpen :: b.flatten).count .loopClose < (w ++ .loopOpen :: b.flatten).count .loopOpen := by
  have hw := count_le_of_not_overclosed h.not_overclosed w.length
  have hb := b.count_eq
  rw [List.take_length] at hw
  rw [List.count_append, List.count_append, List.count_cons_self, List.count_cons_of_ne (by simp)]
  omega

/-- A closing bracket behind a block closes one more than is opened. -/
theorem Block.excess (b : Block) (w : List Instruction) :
    ((b.flatten ++ .loopClose :: w).take (b.flatten.length + 1)).count .loopOpen <
      ((b.flatten ++ .loopClose :: w).take (b.flatten.length + 1)).count .loopClose := by
  have hb := b.count_eq
  have htake : (b.flatten ++ .loopClose :: w).take (b.flatten.length + 1) = b.flatten ++ [.loopClose] := by
    rw [List.take_append, List.take_of_length_le (Nat.le_succ _), Nat.add_sub_cancel_left]
    rfl
  rw [htake, List.count_append, List.count_append, List.count_singleton_self, List.count_singleton,
    if_neg (by decide)]
  omega

/-- It is the first bracket that closes too much. -/
theorem Block.firstExcess (b : Block) (w : List Instruction) :
    FirstExcess (b.flatten ++ .loopClose :: w) b.flatten.length := by
  constructor
  · rw [List.getElem?_append_right (Nat.le_refl _), Nat.sub_self]
    rfl
  · exact b.excess w
  · intro n hn
    rw [List.take_append_of_le_length hn]
    exact count_le_of_not_overclosed b.not_overclosed n

/-- All brackets that a block opens are closed in it. -/
theorem Block.not_unclosed (b : Block) (k : Nat) : ¬ Unclosed b.flatten k := by
  rintro ⟨hbracket, hbehind⟩
  obtain ⟨body, tail, htail⟩ := Block.exists_body_of_open (split_at hbracket)
  have hle := hbehind (body.flatten.length + 1)
  have hlt := body.excess tail
  rw [htail] at hle
  omega

/-- An open bracket in front of a block is the last one that stays open. -/
theorem Block.lastUnclosed (b : Block) (w : List Instruction) :
    LastUnclosed (w ++ .loopOpen :: b.flatten) w.length := by
  have hdrop : ∀ k, (w ++ .loopOpen :: b.flatten).drop (w.length + 1 + k) = b.flatten.drop k := by
    intro k
    rw [List.drop_append, List.drop_of_length_le (by omega), show w.length + 1 + k - w.length = k + 1 by omega]
    rfl
  refine ⟨⟨?_, ?_⟩, ?_⟩
  · rw [List.getElem?_append_right (Nat.le_refl _), Nat.sub_self]
    rfl
  · intro n
    rw [show w.length + 1 = w.length + 1 + 0 from rfl, hdrop 0]
    exact count_le_of_not_overclosed b.not_overclosed n
  · intro j hj
    by_contra hlt
    obtain ⟨k, rfl⟩ := Nat.exists_eq_add_of_le (Nat.lt_of_not_le hlt)
    refine b.not_unclosed k ⟨?_, ?_⟩
    · have hbracket := hj.bracket
      rwa [List.getElem?_append_right (by omega), show w.length.succ + k - w.length = k + 1 by omega,
        List.getElem?_cons_succ] at hbracket
    · intro n
      have hbehind := hj.behind n
      rwa [show w.length.succ + k + 1 = w.length + 1 + (k + 1) by omega, hdrop] at hbehind

end Blame

/-- A verdict that refuses a program, by its wording. -/
def Refuses (r : Except Fault Unit) (text : String) : Prop :=
  ∃ f, r = .error f ∧ f.kind = .invalidProgram ∧ f.message = text

/-- The right verdict on a row: the words of the grammar but for the empty one are accepted, and these are the
balanced rows; and in all others one bracket is blamed. -/
structure Verdict (w : List Instruction) (r : Except Fault Unit) : Prop where
  grammar : r = .ok () ↔ w ≠ [] ∧ Derives w
  counts : r = .ok () ↔ w ≠ [] ∧ Balanced w
  empty : w = [] → Refuses r "empty program"
  excess : Overclosed w → ∃ i, FirstExcess w i ∧ Refuses r s!"unmatched ']' at instruction {i}"
  unclosed : ¬ Overclosed w → w.count .loopClose ≠ w.count .loopOpen →
    ∃ i, LastUnclosed w i ∧ Refuses r s!"unmatched '[' at instruction {i}"

theorem derives_iff_balanced (w : List Instruction) : Derives w ↔ Balanced w :=
  (derives_iff_exists_block w).trans (balanced_iff_exists_block w).symm

section Verdict
variable {w : List Instruction} {r : Except Fault Unit}

theorem Verdict.of_counts (hw : w ≠ []) (hcounts : r = .ok () ↔ w ≠ [] ∧ Balanced w)
    (hexcess : Overclosed w → ∃ i, FirstExcess w i ∧ Refuses r s!"unmatched ']' at instruction {i}")
    (hunclosed : ¬ Overclosed w → w.count .loopClose ≠ w.count .loopOpen →
      ∃ i, LastUnclosed w i ∧ Refuses r s!"unmatched '[' at instruction {i}") : Verdict w r where
  grammar := by rw [derives_iff_balanced, hcounts]
  counts := hcounts
  empty h := absurd h hw
  excess := hexcess
  unclosed := hunclosed

theorem Judged.verdict (h : Judged w r) (hw : w ≠ []) : Verdict w r := by
  cases h with
  | block b =>
    have hbalanced : Balanced b.flatten := (balanced_iff_exists_block _).mpr ⟨b, rfl⟩
    refine .of_counts hw (iff_of_true rfl ⟨hw, hbalanced⟩) ?_ ?_
    · intro hover
      exact absurd hover hbalanced.not_overclosed
    · intro _ hne
      exact absurd hbalanced.2 hne
  | excess b w =>
    have hfirst := b.firstExcess w
    have hover : Overclosed (b.flatten ++ .loopClose :: w) := by
      refine ⟨b.flatten.length + 1, ?_, hfirst.excess⟩
      rw [List.length_append, List.length_cons]
      omega
    refine .of_counts hw (iff_of_false nofun fun h => h.2.not_overclosed hover) ?_ ?_
    · intro _
      exact ⟨_, hfirst, _, rfl, rfl, rfl⟩
    · intro hnone
      exact absurd hover hnone
  | @unclosed os w h b =>
    have hlt := h.count_lt b
    have hne : ¬ Balanced (w ++ .loopOpen :: b.flatten) := fun h => Nat.ne_of_lt hlt h.2
    refine .of_counts hw (iff_of_false nofun fun h => hne h.2) ?_ ?_
    · intro hover
      exact absurd hover (Opens.opened h b).not_overclosed
    · intro _ _
      exact ⟨_, b.lastUnclosed w, _, rfl, rfl, rfl⟩

theorem verdict_nil : Verdict [] (.error .emptyProgram) where
  grammar := iff_of_false nofun fun h => h.1 rfl
  counts := iff_of_false nofun fun h => h.1 rfl
  empty _ := ⟨_, rfl, rfl, rfl⟩
  excess := by
    rintro ⟨n, -, hn⟩
    simp at hn
  unclosed _ h := absurd rfl h

end Verdict

/-- The check of a program comes to the right verdict. -/
theorem Program.validate_rightly (p : Program) : Verdict p.code.toList p.validate := by
  unfold validate
  by_cases hempty : p.code.isEmpty = true
  · have hnil : p.code.toList = [] := by simpa using hempty
    rw [if_pos hempty, hnil]
    exact verdict_nil
  · have hne : p.code.toList ≠ [] := by simpa using hempty
    rw [if_neg hempty]
    exact ((Opens.block .done).judged p.code.toList).verdict hne

end Brainfuck
