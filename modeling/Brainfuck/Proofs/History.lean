import Mathlib.Data.List.DropRight
import Brainfuck.Proofs.Numeral
import Brainfuck.Proofs.Obedience

/-! History. A line that asks for the history with a number writes as many of the latest states, the oldest of them first,
and changes nothing. Only for nought it writes all of them. -/
namespace Brainfuck

namespace Text
variable {c : Char} {cs : List Char}

/-- Whether a character stands for itself wherever it stands on a line. -/
def plain (c : Char) : Bool :=
  !(isBlank c || isSeparator c) && c != escapeMark && c != singleMark && c != doubleMark

theorem plain_of_isDigit (h : c.isDigit = true) : plain c = true := by
  have hbounds : 48 ≤ c.toNat ∧ c.toNat ≤ 57 := Char.isDigit_iff_toNat.mp h
  have hseparator : isSeparator c = false := by
    simp only [isSeparator, Bool.and_eq_false_iff, decide_eq_false_iff_not]
    omega
  have hother : ∀ d : Char, d.isDigit = false → c ≠ d := by
    rintro d hd rfl
    rw [h] at hd
    cases hd
  rw [plain, isBlank_of_isDigit h, hseparator]
  simp [hother, escapeMark, singleMark, doubleMark]

namespace Words

section Plain
variable (h : plain c = true)
include h

theorem parts_of_plain : parts c = false := by
  cases hparts : parts c with
  | false => rfl
  | true => simp [plain, isBlank_of_parts hparts] at h

theorem splitFrom_bare_cons (word cs : List Char) :
    splitFrom (.bare word) (c :: cs) = splitFrom (.bare (c :: word)) cs := by
  have hparts := parts_of_plain h
  simp only [plain, Bool.and_eq_true, bne_iff_ne] at h
  rw [splitFrom.eq_def]
  simp [hparts, h]

theorem splitFrom_between_cons (cs : List Char) : splitFrom .between (c :: cs) = splitFrom (.bare [c]) cs := by
  have hparts := parts_of_plain h
  simp only [plain, Bool.and_eq_true, bne_iff_ne] at h
  rw [splitFrom.eq_def]
  simp [hparts, h]

end Plain

theorem splitFrom_bare (h : ∀ c ∈ cs, plain c = true) (word rest : List Char) :
    splitFrom (.bare word) (cs ++ rest) = splitFrom (.bare (cs.reverse ++ word)) rest := by
  induction cs generalizing word with
  | nil => rfl
  | cons c cs ih =>
    rw [List.cons_append, splitFrom_bare_cons (h c List.mem_cons_self), ih fun d hd => h d (List.mem_cons_of_mem c hd)]
    simp

/-- Plain words with single blanks between them are the words of their line. -/
theorem splitFrom_intercalate {words : List (List Char)} (h : ∀ w ∈ words, w ≠ [] ∧ ∀ c ∈ w, plain c = true) :
    splitFrom .between ([' '].intercalate words) = .ok words := by
  induction words with
  | nil => rfl
  | cons w words ih =>
    obtain ⟨hne, hplain⟩ := h w List.mem_cons_self
    have hrest := ih fun v hv => h v (List.mem_cons_of_mem w hv)
    have hword : ∀ rest, splitFrom .between (w ++ rest) = splitFrom (.bare w.reverse) rest := by
      intro rest
      obtain ⟨c, cs, rfl⟩ := List.exists_cons_of_ne_nil hne
      rw [List.cons_append, splitFrom_between_cons (hplain c List.mem_cons_self),
        splitFrom_bare fun d hd => hplain d (List.mem_cons_of_mem c hd), List.reverse_cons]
    cases words with
    | nil =>
      rw [List.intercalate_singleton, ← List.append_nil w, hword, splitFrom, List.reverse_reverse, List.append_nil]
    | cons v words =>
      rw [List.intercalate_cons_cons, List.append_assoc, hword, List.singleton_append, splitFrom.eq_def]
      simp only [List.reverse_reverse, hrest]
      rfl

end Words

end Text

namespace Debugger

namespace Session
open Text (plain)
variable {word argument : String}

/-- The words on a line with two plain ones. -/
theorem wordsOn_pair (hw : word ≠ "" ∧ ∀ c ∈ word.toList, plain c = true)
    (ha : argument ≠ "" ∧ ∀ c ∈ argument.toList, plain c = true) :
    wordsOn (word ++ " " ++ argument) = some (Text.lower word, [argument]) := by
  have hkept : ∀ c, plain c = true → (Text.isBlank c || Text.isSeparator c) = false := by
    intro c hc
    simp only [plain, Bool.and_eq_true] at hc
    simpa using hc.1.1.1
  have hline : (word ++ " " ++ argument).toList = [' '].intercalate [word.toList, argument.toList] := by
    simp [String.toList_append, List.intercalate_cons_cons]
  have hwne : word.toList ≠ [] := by simpa using hw.1
  have hane : argument.toList ≠ [] := by simpa using ha.1
  have hstrip : Text.strip (word ++ " " ++ argument).toList = (word ++ " " ++ argument).toList := by
    refine Text.trimBy_eq_self ?_ ?_
    · intro c hc
      rw [String.toList_append, String.toList_append, List.append_assoc, List.head?_append_of_ne_nil _ hwne] at hc
      exact hkept c (hw.2 c (List.mem_of_mem_head? hc))
    · intro c hc
      rw [String.toList_append, List.getLast?_append_of_ne_nil _ hane] at hc
      exact hkept c (ha.2 c (List.mem_of_mem_getLast? hc))
  have hwords : Text.Words.splitFrom .between ([' '].intercalate [word.toList, argument.toList]) =
      .ok [word.toList, argument.toList] := by
    refine Text.Words.splitFrom_intercalate fun w hmem => ?_
    obtain rfl | hmem := List.mem_cons.mp hmem
    · exact ⟨hwne, hw.2⟩
    · obtain rfl := List.mem_singleton.mp hmem
      exact ⟨hane, ha.2⟩
  rw [wordsOn, hstrip, Text.Words.split, String.toList_ofList, hline, hwords]
  simp [Except.map]

/-- A number follows the word of the history. -/
theorem wordsOn_history (n : Nat) : wordsOn ("history " ++ toString n) = some ("history", [n.repr]) := by
  have hne : n.repr ≠ "" := by
    intro hnil
    have hdigits : Nat.toDigits 10 n = [] := by
      rw [← String.toList_ofList (l := Nat.toDigits 10 n), ← Nat.repr_eq_ofList_toDigits, hnil]
      rfl
    exact Nat.toDigits_ne_nil hdigits
  have hplain : "history".toList.all plain = true := by decide +kernel
  have hpair : wordsOn ("history" ++ " " ++ n.repr) = some (Text.lower "history", [n.repr]) :=
    wordsOn_pair ⟨by decide, List.all_eq_true.mp hplain⟩
      ⟨hne, fun c hc => Text.plain_of_isDigit (Text.isDigit_of_mem_repr hc)⟩
  have hword : Text.lower "history" = "history" := by decide +kernel
  have hline : "history " = "history" ++ " " := by decide +kernel
  rw [hline, ← hword]
  exact hpair

/-- As many of the latest states as are asked for, except that for nought these are all. -/
theorem recent_natCast (s : Session) (n : Nat) :
    s.recent n = if n = 0 then s.history.toList else s.history.toList.rtake n := by
  unfold recent
  by_cases hn : n = 0
  · subst hn
    rfl
  · rw [if_neg (by omega), if_neg hn, Int.toNat_natCast]
    rfl

end Session

namespace Console
open Session (wordsOn wordsOn_cases wordsOn_history recent_natCast)

variable {c : Console} {fuel : Nat}

/-- What is written for a state: a rule, and the text of the state. -/
def rendering (s : Session) (x : Snapshot) : String :=
  String.ofList (List.replicate 40 '-') ++ "\n" ++ stateText x s.instructions ++ "\n"

def writing (c : Console) (xs : List Snapshot) : Console :=
  { c with output := c.output ++ String.join (xs.map (rendering c.session)) }

theorem printState_eq (c : Console) (x : Snapshot) : c.printState x = c.writing [x] := by
  unfold printState print writing rendering
  generalize String.ofList (List.replicate 40 '-') = rule
  simp [String.append_assoc]

theorem printStates_eq (c : Console) (xs : List Snapshot) : c.printStates xs = c.writing xs := by
  induction xs generalizing c with
  | nil => simp [printStates, writing]
  | cons x xs ih =>
    calc c.printStates (x :: xs)
      _ = (c.printState x).printStates xs := rfl
      _ = (c.writing [x]).writing xs := by rw [printState_eq, ih]
      _ = c.writing (x :: xs) := by simp [writing, String.append_assoc]

theorem executeLine_history (c : Console) (fuel n : Nat) :
    c.executeLine fuel ("history " ++ toString n) =
      (if n.repr.length ≤ Text.maxDigits then c.writing (c.session.recent n)
        else c.complain "数値が正しくありません。", .proceed) := by
  have hcommand : Command.ofLine ("history " ++ toString n) = .ok (some (Command.withNumber n.repr .history)) := by
    have hwords := wordsOn_history n
    obtain ⟨d, -, hnone⟩ | ⟨-, hnone⟩ | ⟨word, arguments, hline, hsome⟩ := wordsOn_cases ("history " ++ toString n)
    · rw [hnone] at hwords
      cases hwords
    · rw [hnone] at hwords
      cases hwords
    · rw [hsome] at hwords
      obtain ⟨hword, rfl⟩ := Prod.mk.inj (Option.some.inj hwords)
      rw [hline]
      unfold Command.ofWords
      rw [hword]
      rfl
  unfold executeLine
  rw [hcommand, Command.withNumber, Text.integer?_repr]
  by_cases hlength : n.repr.length ≤ Text.maxDigits
  · rw [if_pos hlength, if_pos hlength, ← printStates_eq]
    rfl
  · rw [if_neg hlength, if_neg hlength]
    rfl

theorem rendering_length_pos (s : Session) (x : Snapshot) : 0 < (rendering s x).length := by
  unfold rendering
  generalize String.ofList (List.replicate 40 '-') = rule
  rw [String.length_append]
  exact Nat.add_pos_right _ (by decide)

/-- Nothing is written only where there are no states. -/
theorem writing_eq_self_iff {xs : List Snapshot} : c.writing xs = c ↔ xs = [] := by
  constructor
  · intro h
    have houtput : c.output ++ String.join (xs.map (rendering c.session)) = c.output := congrArg Console.output h
    cases xs with
    | nil => rfl
    | cons x xs =>
      have hlength := congrArg String.length houtput
      have hpos := rendering_length_pos c.session x
      rw [List.map_cons, String.join_cons, String.length_append, String.length_append] at hlength
      omega
  · rintro rfl
    simp [writing]

theorem complain_ne_writing (line : String) (xs : List Snapshot) : c.complain line ≠ c.writing xs := by
  intro h
  have herrors : c.errors ++ line ++ "\n" = c.errors := congrArg Console.errors h
  have hlength := congrArg String.length herrors
  simp only [String.length_append] at hlength
  have hbreak : "\n".length = 1 := rfl
  omega

end Console

end Debugger

end Brainfuck
