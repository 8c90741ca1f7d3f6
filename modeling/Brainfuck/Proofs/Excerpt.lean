import Mathlib.Tactic.SplitIfs
import Brainfuck.Debugger.Rendering

/-! Excerpts of the code. The lines of a snapshot show the instructions within reach of the next one, in order and as
they are, but for one mark: brackets around the next instruction, or an end mark if there is none. -/
namespace Brainfuck.Debugger
open List (range')

variable {cs before after : List Char} {c : Char} {k n position : Nat}

/-- The characters at the positions from `start` up to `stop`, in order. -/
def charsBetween (cs : List Char) (start stop : Nat) : List Char :=
  (range' start (stop - start)).filterMap fun i => cs[i]?

/-- They are a part of the text. -/
theorem charsBetween_eq (cs : List Char) (start stop : Nat) :
    charsBetween cs start stop = (cs.drop start).take (stop - start) := by
  unfold charsBetween
  induction stop - start generalizing start with
  | zero => rfl
  | succ n ih =>
    rw [List.range'_succ, List.filterMap_cons, ih]
    by_cases hstart : start < cs.length
    · rw [List.getElem?_eq_getElem hstart, List.drop_eq_getElem_cons hstart, List.take_succ_cons]
    · have hle : cs.length ≤ start := Nat.not_lt.mp hstart
      rw [List.getElem?_eq_none hle, List.drop_eq_nil_of_le hle, List.drop_eq_nil_of_le (Nat.le_succ_of_le hle),
        List.take_nil, List.take_nil]

theorem length_charsBetween (start : Nat) {stop : Nat} (hstop : stop ≤ cs.length) :
    (charsBetween cs start stop).length = stop - start := by
  rw [charsBetween_eq, List.length_take, List.length_drop]
  omega

theorem charsBetween_infix (cs : List Char) (start stop : Nat) : charsBetween cs start stop <:+: cs := by
  rw [charsBetween_eq]
  exact (List.take_prefix _ _).isInfix.trans (List.drop_suffix _ _).isInfix

/-- A part of a text is told by the parts in front of one of its characters and behind it. -/
theorem charsBetween_split {start stop : Nat} (hc : cs[position]? = some c) (hstart : start ≤ position)
    (hstop : position < stop) :
    charsBetween cs start stop =
      charsBetween cs start position ++ c :: charsBetween cs (position + 1) stop := by
  have hsplit : range' start (stop - start) =
      range' start (position - start) ++ position :: range' (position + 1) (stop - (position + 1)) := by
    have hlength : stop - start = position - start + (stop - (position + 1) + 1) := by omega
    have hposition : start + (position - start) = position := by omega
    rw [hlength, ← List.range'_append_1, hposition, List.range'_succ]
  rw [charsBetween, hsplit, List.filterMap_append, List.filterMap_cons, hc]
  rfl

/-- A character with its position, in brackets if the position is the wanted one. -/
def piece (position : Int) (x : Char × Nat) : List Char :=
  if (x.2 : Int) = position then ['[', x.1, ']'] else [x.1]

theorem flatMap_piece_of_ne (h : ∀ i, k ≤ i → i < k + cs.length → i ≠ position) :
    (cs.zipIdx k).flatMap (piece position) = cs := by
  induction cs generalizing k with
  | nil => rfl
  | cons c cs ih =>
    have hfirst : k ≠ position := h k (Nat.le_refl k) (by rw [List.length_cons]; omega)
    have hrest : ((cs.zipIdx (k + 1)).flatMap (piece position)) = cs := by
      refine ih ?_
      intro i hi hi'
      refine h i (Nat.le_of_succ_le hi) ?_
      rw [List.length_cons]
      omega
    have hpiece : piece position (c, k) = [c] := if_neg (by omega)
    rw [List.zipIdx_cons, List.flatMap_cons, hrest, hpiece]
    rfl

/-- Brackets are set around the character at the position, and nowhere else. -/
theorem flatMap_piece (h : k + before.length = position) :
    ((before ++ c :: after).zipIdx k).flatMap (piece position) = before ++ '[' :: c :: ']' :: after := by
  -- the position is behind all indices of the first part and in front of all those of the last one
  have hbefore : (before.zipIdx k).flatMap (piece position) = before := by
    refine flatMap_piece_of_ne ?_
    intro i _ hi
    omega
  have hafter : (after.zipIdx (k + before.length + 1)).flatMap (piece position) = after := by
    refine flatMap_piece_of_ne ?_
    intro i hi _
    omega
  have hpiece : piece position (c, k + before.length) = ['[', c, ']'] := if_pos (by omega)
  rw [List.zipIdx_append, List.flatMap_append, List.zipIdx_cons, List.flatMap_cons, hbefore, hafter, hpiece]
  rfl

/-- Two ways to mark a place in a text: brackets around one of its characters, or an end mark behind it. -/
inductive Marking (shown : List Char) : List Char → Prop where
  | around {before after : List Char} {c : Char} (h : shown = before ++ c :: after) :
      Marking shown (before ++ '[' :: c :: ']' :: after)
  | behind : Marking shown (shown ++ "[END]".toList)

theorem codeWindow_toList {code : String} (hcode : code ≠ "") (position reach : Nat) :
    (codeWindow code position reach).toList =
      ((charsBetween code.toList (position - reach) (min code.length (position + reach + 1))).zipIdx
        (position - reach)).flatMap (piece position) ++
          if code.length ≤ position then "[END]".toList else [] := by
  have hnil : code.toList.isEmpty = false := by simpa using hcode
  have hfirst : (max 0 ((position : Int) - reach)).toNat = position - reach := by omega
  have hstop : (min (code.toList.length : Int) (position + reach + 1)).toNat =
      min code.length (position + reach + 1) := by
    rw [String.length_toList]
    omega
  have hend : ((code.toList.length : Int) ≤ position) ↔ code.length ≤ position := by
    rw [String.length_toList, Int.ofNat_le]
  rw [charsBetween_eq, codeWindow]
  simp only [hnil, Bool.false_eq_true, if_false, hfirst, hstop, hend, String.toList_append, String.toList_ofList]
  congr 1
  split_ifs <;> rfl

section Window
variable {code : String} {reach : Nat}

/-- The character at the position is the only one in brackets. -/
theorem codeWindow_of_getElem? (hc : code.toList[position]? = some c) :
    (codeWindow code position reach).toList =
      charsBetween code.toList (position - reach) position ++
        '[' :: c :: ']' :: charsBetween code.toList (position + 1) (min code.length (position + reach + 1)) := by
  obtain ⟨hlt, -⟩ := List.getElem?_eq_some_iff.mp hc
  have hcode : code ≠ "" := by
    rintro rfl
    exact absurd hlt (Nat.not_lt_zero position)
  have hlength : code.toList.length = code.length := String.length_toList
  have hbefore := length_charsBetween (position - reach) (Nat.le_of_lt hlt)
  rw [codeWindow_toList hcode, charsBetween_split hc (by omega) (by omega), flatMap_piece (by omega),
    if_neg (by omega), List.append_nil]

/-- Behind the last character stands a mark. -/
theorem codeWindow_of_length_le (hcode : code ≠ "") (hend : code.length ≤ position) :
    (codeWindow code position reach).toList =
      charsBetween code.toList (position - reach) code.length ++ "[END]".toList := by
  have hlength : code.toList.length = code.length := String.length_toList
  have hstop : min code.length (position + reach + 1) = code.length := by omega
  have hshown := length_charsBetween (position - reach) (Nat.le_of_eq hlength.symm)
  rw [codeWindow_toList hcode, hstop, if_pos hend, flatMap_piece_of_ne]
  intro i hi hi'
  omega

/-- The code around the next instruction is shown as it is, in order and with one mark, however far the next instruction
is beyond the end. -/
theorem codeWindow_excerpt (hcode : code ≠ "") (position reach : Nat) :
    (∀ c, code.toList[position]? = some c →
        (codeWindow code position reach).toList =
          charsBetween code.toList (position - reach) position ++
            '[' :: c :: ']' :: charsBetween code.toList (position + 1) (min code.length (position + reach + 1))) ∧
      (code.length ≤ position →
        (codeWindow code position reach).toList =
          charsBetween code.toList (position - reach) code.length ++ "[END]".toList) ∧
      ∃ shown, shown <:+: code.toList ∧ shown.length ≤ 2 * reach + 1 ∧
        Marking shown (codeWindow code position reach).toList := by
  have hlength : code.toList.length = code.length := String.length_toList
  refine ⟨fun c hc => codeWindow_of_getElem? hc, codeWindow_of_length_le hcode, ?_⟩
  refine ⟨charsBetween code.toList (position - reach) (min code.length (position + reach + 1)),
    charsBetween_infix _ _ _, ?_, ?_⟩
  · rw [length_charsBetween _ (by omega)]
    omega
  · by_cases hend : code.length ≤ position
    · have hstop : min code.length (position + reach + 1) = code.length := by omega
      rw [codeWindow_of_length_le hcode hend, hstop]
      exact .behind
    · have hlt : position < code.toList.length := by omega
      have hc := List.getElem?_eq_getElem hlt
      rw [codeWindow_of_getElem? hc]
      exact .around (charsBetween_split hc (by omega) (by omega))

end Window

theorem codeWindow_excerpt_of_loop : "+[-]" ≠ "" ∧ codeWindow "+[-]" 1 1 = "+[[]-" ∧
    codeWindow "+[-]" 9 7 = "-][END]" := by
  have hcode : "+[-]" ≠ "" := by decide
  have hinside := (codeWindow_excerpt hcode 1 1).1 '[' (by decide)
  have hbeyond := (codeWindow_excerpt hcode 9 7).2.1 (by decide)
  have hbefore : charsBetween "+[-]".toList (1 - 1) 1 = ['+'] := by decide
  have hafter : charsBetween "+[-]".toList (1 + 1) (min "+[-]".length (1 + 1 + 1)) = ['-'] := by decide
  have hrest : charsBetween "+[-]".toList (9 - 7) "+[-]".length = ['-', ']'] := by decide
  rw [hbefore, hafter] at hinside
  rw [hrest] at hbeyond
  exact ⟨hcode, String.toList_inj.mp hinside, String.toList_inj.mp hbeyond⟩

end Brainfuck.Debugger
