import Brainfuck.Json.Reader
import Brainfuck.Proofs.Utf8

/-! Quoted texts. A quoted text can be told from what follows it, whatever characters are in it: escapes are read back
one by one, and none of them begins with the mark that encloses the text. -/
namespace Brainfuck.Text
variable {visible : Char → Bool} {mark c : Char} {rest : List Char}

def hexNumber (cs : List Char) : Nat :=
  cs.foldl (fun n c => 16 * n + (Json.hexValue? c).getD 0) 0

/-- The character in front, behind an escape mark or without one, and what follows it. -/
def unescape : List Char → Option (Char × List Char)
  | [] => none
  | c :: cs =>
    if c = escapeMark then
      match cs with
      | [] => none
      | 'n' :: cs => some ('\n', cs)
      | 'r' :: cs => some ('\r', cs)
      | 't' :: cs => some ('\t', cs)
      | 'x' :: cs => some (Char.ofNat (hexNumber (cs.take 2)), cs.drop 2)
      | 'u' :: cs => some (Char.ofNat (hexNumber (cs.take 4)), cs.drop 4)
      | 'U' :: cs => some (Char.ofNat (hexNumber (cs.take 8)), cs.drop 8)
      | c :: cs => some (c, cs)
    else some (c, cs)

theorem length_hexDigits (width n : Nat) : (hexDigits width n).length = width := by
  induction width generalizing n with
  | zero => rfl
  | succ width ih => rw [hexDigits, List.length_append, ih, List.length_singleton]

theorem hexNumber_hexDigits (width n : Nat) : hexNumber (hexDigits width n) = n % 16 ^ width := by
  have hdigit : ∀ d < 16, (Json.hexValue? (Nat.digitChar d)).getD 0 = d := by decide
  induction width generalizing n with
  | zero => rw [hexDigits, Nat.pow_zero, Nat.mod_one]; rfl
  | succ width ih =>
    have hfold : hexNumber (hexDigits (width + 1) n) =
        16 * hexNumber (hexDigits width (n / 16)) + (Json.hexValue? (Nat.digitChar (n % 16))).getD 0 := by
      rw [hexNumber, hexDigits, List.foldl_append]
      rfl
    rw [hfold, ih, hdigit _ (Nat.mod_lt n (by decide)), Nat.pow_succ, Nat.mul_comm (16 ^ width), Nat.mod_mul]
    omega

theorem take_hexDigits (width n : Nat) (rest : List Char) :
    (hexDigits width n ++ rest).take width = hexDigits width n ∧ (hexDigits width n ++ rest).drop width = rest := by
  rw [List.take_left' (length_hexDigits width n), List.drop_left' (length_hexDigits width n)]
  exact ⟨rfl, rfl⟩

theorem unescape_numericEscape (c : Char) (rest : List Char) :
    unescape (numericEscape c.toNat ++ rest) = some (c, rest) := by
  have hvalid : c.toNat.isValidChar := c.valid
  have hread : ∀ width, c.toNat < 16 ^ width →
      Char.ofNat (hexNumber ((hexDigits width c.toNat ++ rest).take width)) = c ∧
        (hexDigits width c.toNat ++ rest).drop width = rest := by
    intro width hwidth
    obtain ⟨htake, hdrop⟩ := take_hexDigits width c.toNat rest
    rw [htake, hexNumber_hexDigits, Nat.mod_eq_of_lt hwidth, Char.ofNat_toNat]
    exact ⟨rfl, hdrop⟩
  unfold numericEscape
  split_ifs with hshort hmiddle
  · obtain ⟨hc, hrest⟩ := hread 2 (by omega)
    simp [unescape, hc, hrest]
  · obtain ⟨hc, hrest⟩ := hread 4 (by omega)
    simp [unescape, hc, hrest]
  · obtain ⟨hc, hrest⟩ := hread 8 (by rw [Nat.isValidChar] at hvalid; omega)
    simp [unescape, hc, hrest]

/-- Every character is read back from its escape. -/
theorem unescape_escapeChar (hmark : mark = singleMark ∨ mark = doubleMark) (c : Char) (rest : List Char) :
    unescape (escapeChar visible mark c ++ rest) = some (c, rest) := by
  unfold escapeChar
  split_ifs with hself hfeed hreturn htab hvisible
  · have hne : c ≠ 'n' ∧ c ≠ 'r' ∧ c ≠ 't' ∧ c ≠ 'x' ∧ c ≠ 'u' ∧ c ≠ 'U' := by
      simp only [Bool.or_eq_true, beq_iff_eq] at hself
      obtain rfl | rfl := hself
      · obtain rfl | rfl := hmark
        · decide
        · decide
      · decide
    simp [unescape, hne]
  · rw [beq_iff_eq.mp hfeed]
    rfl
  · rw [beq_iff_eq.mp hreturn]
    rfl
  · rw [beq_iff_eq.mp htab]
    rfl
  · have hne : c ≠ escapeMark := by simp_all
    simp [unescape, hne]
  · exact unescape_numericEscape c rest

theorem length_le_length_flatMap_escapeChar (hmark : mark = singleMark ∨ mark = doubleMark) (cs : List Char) :
    cs.length ≤ (cs.flatMap (escapeChar visible mark)).length := by
  induction cs with
  | nil => exact Nat.le_refl 0
  | cons c cs ih =>
    have hne : escapeChar visible mark c ≠ [] := by
      intro hnil
      have hread : unescape (escapeChar visible mark c ++ []) = some (c, []) := unescape_escapeChar hmark c []
      rw [hnil] at hread
      cases hread
    have hpos := List.length_pos_iff.mpr hne
    rw [List.flatMap_cons, List.length_append, List.length_cons]
    omega

/-- No escape begins with the mark that encloses the text. -/
theorem head?_escapeChar_append_ne (hmark : mark = singleMark ∨ mark = doubleMark) (c : Char) (rest : List Char) :
    (escapeChar visible mark c ++ rest).head? ≠ some mark := by
  have hescape : escapeMark ≠ mark := by
    obtain rfl | rfl := hmark
    · decide
    · decide
  unfold escapeChar numericEscape
  split_ifs
  all_goals simp_all

theorem markFor_eq (cs : List Char) : markFor cs = singleMark ∨ markFor cs = doubleMark := by
  unfold markFor
  split
  · exact Or.inr rfl
  · exact Or.inl rfl

/-- The text up to a mark, read back in at most `fuel` steps, and what follows the mark. -/
def unescapeTo (mark : Char) : Nat → List Char → List Char × List Char
  | 0, cs => ([], cs)
  | fuel + 1, cs =>
    if cs.head? = some mark then ([], cs.tail)
    else
      match unescape cs with
      | none => ([], cs)
      | some (c, cs) => (c :: (unescapeTo mark fuel cs).1, (unescapeTo mark fuel cs).2)

theorem unescapeTo_flatMap {fuel : Nat} {cs : List Char} (hmark : mark = singleMark ∨ mark = doubleMark)
    (hfuel : cs.length < fuel) (rest : List Char) :
    unescapeTo mark fuel (cs.flatMap (escapeChar visible mark) ++ mark :: rest) = (cs, rest) := by
  induction cs generalizing fuel with
  | nil =>
    obtain ⟨fuel, rfl⟩ := Nat.exists_eq_add_of_lt hfuel
    simp [unescapeTo]
  | cons c cs ih =>
    obtain ⟨fuel, rfl⟩ : ∃ k, fuel = k + 1 := ⟨fuel - 1, by omega⟩
    have hlt : cs.length < fuel := by simpa using hfuel
    rw [List.flatMap_cons, List.append_assoc, unescapeTo, if_neg (head?_escapeChar_append_ne hmark c _),
      unescape_escapeChar hmark]
    dsimp only
    rw [ih hlt]

/-- The text behind a mark, and what follows the mark that ends it. -/
def unquote : List Char → List Char × List Char
  | [] => ([], [])
  | mark :: cs => unescapeTo mark cs.length cs

/-- A quoted text ends where its mark stands for the second time, and is read back up to there. -/
theorem unquote_quoteChars (cs rest : List Char) : unquote (quoteChars visible cs ++ rest) = (cs, rest) := by
  have hlength : cs.length ≤ (cs.flatMap (escapeChar visible (markFor cs))).length :=
    length_le_length_flatMap_escapeChar (markFor_eq cs) cs
  rw [quoteChars, List.cons_append, unquote, List.append_assoc, List.singleton_append]
  refine unescapeTo_flatMap (markFor_eq cs) ?_ rest
  rw [List.length_append, List.length_cons]
  omega

end Brainfuck.Text
