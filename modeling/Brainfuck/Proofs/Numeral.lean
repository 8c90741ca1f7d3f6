import Brainfuck.Text.Numeral

/-! Numerals. A number that is written in decimal digits is read as itself, unless it is too long to be read, and no two
numbers are written alike. -/
namespace Brainfuck.Text
variable {c : Char} {cs : List Char}

def inNumeral (c : Char) : Bool :=
  c == '-' || c.isDigit

theorem digitValue?_of_isDigit (h : c.isDigit = true) : digitValue? c = some (c.toNat - 48) := by
  have hbounds : 48 ≤ c.toNat ∧ c.toNat ≤ 57 := Char.isDigit_iff_toNat.mp h
  rw [digitValue?, if_pos (by omega), if_pos (by simpa using hbounds)]

theorem digits?_of_isDigit (hne : cs ≠ []) (h : ∀ c ∈ cs, c.isDigit = true) :
    digits? cs = some (cs.map fun c => c.toNat - 48) := by
  fun_induction digits? cs with
  | case1 => exact absurd rfl hne
  | case2 c => rw [digitValue?_of_isDigit (h c List.mem_cons_self)]; rfl
  | case3 c rest ih =>
    have hunderscore := h '_' (List.mem_cons_of_mem c List.mem_cons_self)
    cases hunderscore
  | case4 c rest hlast hunderscore ih =>
    have hrest : rest ≠ [] := fun hnil => hlast (by rw [hnil])
    rw [digitValue?_of_isDigit (h c List.mem_cons_self), ih hrest fun d hd => h d (List.mem_cons_of_mem c hd)]
    rfl

theorem ofDigits_map (cs : List Char) : ofDigits (cs.map fun c => c.toNat - 48) = Nat.ofDigitChars 10 cs 0 := by
  rw [ofDigits, List.foldl_map, Nat.ofDigitChars_eq_foldl]
  rfl

theorem natural?_toDigits (n : Nat) :
    natural? (Nat.toDigits 10 n) = if (Nat.toDigits 10 n).length ≤ maxDigits then some n else none := by
  have hdigits := digits?_of_isDigit (Nat.toDigits_ne_nil (n := n) (b := 10)) fun c hc =>
    Nat.isDigit_of_mem_toDigits (by decide) (by decide) hc
  simp only [natural?, hdigits, Option.bind_eq_bind, Option.bind_some, List.length_map, ofDigits_map,
    Nat.ofDigitChars_ten_toDigits]

/-- A text has no characters of a class at its ends if neither its first one nor its last one is in it. -/
theorem trimBy_eq_self {drop : Char → Bool} (hfirst : ∀ c ∈ cs.head?, drop c = false)
    (hlast : ∀ c ∈ cs.getLast?, drop c = false) : trimBy drop cs = cs := by
  have hkept : ∀ {ds : List Char}, (∀ c ∈ ds.head?, drop c = false) → ds.dropWhile drop = ds := by
    intro ds hds
    cases ds with
    | nil => rfl
    | cons d ds => rw [List.dropWhile_cons_of_neg (by simp [hds d rfl])]
  rw [trimBy, hkept hfirst, hkept (by rwa [List.head?_reverse]), List.reverse_reverse]

theorem isBlank_of_isDigit (h : c.isDigit = true) : isBlank c = false := by
  have hbounds : 48 ≤ c.toNat ∧ c.toNat ≤ 57 := Char.isDigit_iff_toNat.mp h
  simp only [isBlank, Bool.or_eq_false_iff, Bool.and_eq_false_iff, decide_eq_false_iff_not, beq_eq_false_iff_ne]
  omega

theorem isDigit_of_mem_repr {n : Nat} (h : c ∈ n.repr.toList) : c.isDigit = true := by
  rw [Nat.repr_eq_ofList_toDigits, String.toList_ofList] at h
  exact Nat.isDigit_of_mem_toDigits (by decide) (by decide) h

/-- A number is read as itself if it has as many digits as can be read, and else not at all. -/
theorem integer?_repr (n : Nat) :
    integer? n.repr = if n.repr.length ≤ maxDigits then some (n : Int) else none := by
  have hdigit : ∀ c ∈ n.repr.toList, c.isDigit = true := fun c hc => isDigit_of_mem_repr hc
  have htrim : trim n.repr.toList = n.repr.toList :=
    trimBy_eq_self (fun c hc => isBlank_of_isDigit (hdigit c (List.mem_of_mem_head? hc)))
      fun c hc => isBlank_of_isDigit (hdigit c (List.mem_of_mem_getLast? hc))
  have hlength : n.repr.length = (Nat.toDigits 10 n).length := by
    rw [Nat.repr_eq_ofList_toDigits, String.length_ofList]
  have hlist : n.repr.toList = Nat.toDigits 10 n := by rw [Nat.repr_eq_ofList_toDigits, String.toList_ofList]
  rw [integer?, htrim, hlength]
  split
  · next hsign => cases hdigit '+' (by rw [hsign]; exact List.mem_cons_self)
  · next hsign => cases hdigit '-' (by rw [hsign]; exact List.mem_cons_self)
  · rw [hlist, natural?_toDigits]
    split <;> rfl

def numeralValue : List Char → Int
  | '-' :: ds => -(Nat.ofDigitChars 10 ds 0 : Nat)
  | ds => (Nat.ofDigitChars 10 ds 0 : Nat)

section Written
variable (width : Nat) (n : Int)

theorem zeroFilled_toList : (zeroFilled width n).toList = (if n < 0 then ['-'] else []) ++
    List.replicate (width - (if n < 0 then ['-'] else []).length - (Nat.toDigits 10 n.natAbs).length) '0' ++
      Nat.toDigits 10 n.natAbs := by
  rw [zeroFilled, String.toList_ofList]

theorem isDigit_of_mem_filled {k m : Nat} (h : c ∈ List.replicate k '0' ++ Nat.toDigits 10 m) : c.isDigit = true := by
  obtain hzero | hdigit := List.mem_append.mp h
  · rw [List.eq_of_mem_replicate hzero]
    decide
  · exact Nat.isDigit_of_mem_toDigits (by decide) (by decide) hdigit

/-- Zeros between the sign and the digits do not count. -/
theorem numeralValue_zeroFilled : numeralValue (zeroFilled width n).toList = n := by
  have hvalue : ∀ k, Nat.ofDigitChars 10 (List.replicate k '0' ++ Nat.toDigits 10 n.natAbs) 0 = n.natAbs := by
    intro k
    rw [Nat.ofDigitChars_append, Nat.ofDigitChars_replicate_zero, Nat.mul_zero, Nat.ofDigitChars_ten_toDigits]
  rw [zeroFilled_toList]
  by_cases hn : n < 0
  · rw [if_pos hn, List.append_assoc, List.singleton_append, numeralValue, hvalue]
    omega
  · rw [if_neg hn, List.nil_append, numeralValue, hvalue]
    · omega
    · -- no digit is a sign
      intro ds hds
      have hsign := isDigit_of_mem_filled (c := '-') (by rw [hds]; exact List.mem_cons_self)
      cases hsign

theorem inNumeral_of_mem_zeroFilled (h : c ∈ (zeroFilled width n).toList) : inNumeral c = true := by
  rw [zeroFilled_toList, List.append_assoc] at h
  obtain hsign | hfilled := List.mem_append.mp h
  · split at hsign
    · rw [List.mem_singleton.mp hsign]
      decide
    · cases hsign
  · rw [inNumeral, isDigit_of_mem_filled hfilled, Bool.or_true]

end Written

/-- The number in front, and what follows its numeral. -/
def readNumber (cs : List Char) : Int × List Char :=
  (numeralValue (cs.takeWhile inNumeral), cs.dropWhile inNumeral)

/-- A numeral ends where something stands that is in no numeral, and is read back up to there. -/
theorem readNumber_append {width : Nat} {n : Int} {rest : List Char} (hrest : rest.head?.any inNumeral = false) :
    readNumber ((zeroFilled width n).toList ++ rest) = (n, rest) := by
  have hnumeral : ∀ c ∈ (zeroFilled width n).toList, inNumeral c = true := fun c hc =>
    inNumeral_of_mem_zeroFilled width n hc
  have hends : rest.takeWhile inNumeral = [] ∧ rest.dropWhile inNumeral = rest := by
    cases rest with
    | nil => exact ⟨rfl, rfl⟩
    | cons c cs =>
      have hc : ¬inNumeral c = true := by simpa using hrest
      exact ⟨List.takeWhile_cons_of_neg hc, List.dropWhile_cons_of_neg hc⟩
  rw [readNumber, List.takeWhile_append_of_pos hnumeral, List.dropWhile_append_of_pos hnumeral, hends.1, hends.2,
    List.append_nil, numeralValue_zeroFilled]

/-- Without zeros to fill it a number stands as it does in any text. -/
theorem repr_eq_zeroFilled (n : Int) : n.repr = zeroFilled 0 n := by
  rw [← String.toList_inj, zeroFilled_toList, Nat.zero_sub, Nat.zero_sub, List.replicate_zero, List.append_nil]
  cases n with
  | ofNat m =>
    have hrepr : (Int.ofNat m).repr = m.repr := rfl
    rw [hrepr, Nat.repr_eq_ofList_toDigits, String.toList_ofList]
    rfl
  | negSucc m =>
    have hrepr : (Int.negSucc m).repr = "-" ++ (m + 1).repr := rfl
    rw [hrepr, Nat.repr_eq_ofList_toDigits, String.toList_append, String.toList_ofList (l := Nat.toDigits 10 (m + 1)),
      if_pos (Int.negSucc_lt_zero m)]
    rfl

end Brainfuck.Text
