import Mathlib.Algebra.Group.Nat.Defs
import Mathlib.Data.List.TakeWhile
import Brainfuck.Text.Utf8

/-! Bytes in UTF-8. The bytes of a text are read as this text, and no other bytes are read at all: those in front of which
reading ends are of one of a few kinds. -/
namespace Brainfuck.Text

theorem toNat_ofNat {n : Nat} (h : n.isValidChar) : (Char.ofNat n).toNat = n := by
  rw [Char.ofNat, dif_pos h]
  rfl

namespace Utf8

def continues (b : UInt8) : Bool :=
  0x80 ≤ b && b ≤ 0xbf

/-- How many bytes a first byte announces, and the bits that it contributes itself. -/
def announced? (b : UInt8) : Option (Nat × Nat) :=
  if b.toNat < 0x80 then some (0, b.toNat)
  else if b.toNat < 0xc0 then none
  else if b.toNat < 0xe0 then some (1, b.toNat - 0xc0)
  else if b.toNat < 0xf0 then some (2, b.toNat - 0xe0)
  else if b.toNat < 0xf8 then some (3, b.toNat - 0xf0)
  else none

def number (bits : Nat) (tails : List UInt8) : Nat :=
  tails.foldl (fun n t => 64 * n + (t.toNat - 0x80)) bits

def needed (n : Nat) : Nat :=
  if n < 0x80 then 0 else if n < 0x800 then 1 else if n < 0x10000 then 2 else 3

/-- A first byte and all the bytes that it announces, which spell a number. -/
structure Spells (b : UInt8) (tails : List UInt8) (n : Nat) : Prop where
  announced : ∃ bits, announced? b = some (tails.length, bits) ∧ number bits tails = n
  continued : ∀ t ∈ tails, continues t = true

/-- The beginnings of bytes that are those of no text: a byte that goes on with nothing, one that starts nothing, a
sequence that is cut off, and sequences for a number that takes fewer bytes, for half of a surrogate pair, and for one
beyond the last character. -/
inductive Malformed : List UInt8 → Prop where
  | stray {b : UInt8} (h : continues b = true) (rest : List UInt8) : Malformed (b :: rest)
  | startless {b : UInt8} (h : 0xf8 ≤ b.toNat) (rest : List UInt8) : Malformed (b :: rest)
  | truncated {b : UInt8} {k bits : Nat} {tails rest : List UInt8} (h : announced? b = some (k, bits))
      (htails : ∀ t ∈ tails, continues t = true) (hlt : tails.length < k)
      (hrest : ∀ t ∈ rest.head?, continues t = false) : Malformed (b :: (tails ++ rest))
  | overlong {b : UInt8} {tails : List UInt8} {n : Nat} (h : Spells b tails n) (hn : needed n < tails.length)
      (rest : List UInt8) : Malformed (b :: (tails ++ rest))
  | surrogate {b : UInt8} {tails : List UInt8} {n : Nat} (h : Spells b tails n) (hn : 0xd800 ≤ n ∧ n < 0xe000)
      (rest : List UInt8) : Malformed (b :: (tails ++ rest))
  | beyond {b : UInt8} {tails : List UInt8} {n : Nat} (h : Spells b tails n) (hn : 0x110000 ≤ n)
      (rest : List UInt8) : Malformed (b :: (tails ++ rest))

variable {b : UInt8} {tails rest bs : List UInt8} {n k bits : Nat} {c : Char} {cs : List Char}

theorem continues_iff : continues b = true ↔ 0x80 ≤ b.toNat ∧ b.toNat < 0xc0 := by
  simp only [continues, Bool.and_eq_true, decide_eq_true_eq, UInt8.le_iff_toNat_le, UInt8.toNat_ofNat, Nat.reducePow,
    Nat.reduceMod]
  omega

theorem announced?_eq_some_iff : announced? b = some (k, bits) ↔
    (k = 0 ∧ b.toNat = bits ∧ bits < 0x80) ∨ (k = 1 ∧ b.toNat = 0xc0 + bits ∧ bits < 0x20) ∨
      (k = 2 ∧ b.toNat = 0xe0 + bits ∧ bits < 0x10) ∨ (k = 3 ∧ b.toNat = 0xf0 + bits ∧ bits < 8) := by
  unfold announced?
  split_ifs
  all_goals simp only [Option.some.injEq, Prod.mk.injEq, false_iff]
  all_goals omega

theorem needed_eq_iff : needed n = k ↔ (k = 0 ∧ n < 0x80) ∨ (k = 1 ∧ 0x80 ≤ n ∧ n < 0x800) ∨
    (k = 2 ∧ 0x800 ≤ n ∧ n < 0x10000) ∨ (k = 3 ∧ 0x10000 ≤ n) := by
  unfold needed
  split_ifs
  all_goals omega

theorem number_cons (bits : Nat) (t : UInt8) (ts : List UInt8) :
    number bits (t :: ts) = number (64 * bits + (t.toNat - 0x80)) ts := by
  rw [number, List.foldl_cons, number]

def trails : Nat → Nat → List UInt8
  | 0, _ => []
  | k + 1, n => UInt8.ofNat (n / 64 ^ k % 64 + 0x80) :: trails k n

theorem length_trails (k n : Nat) : (trails k n).length = k := by
  induction k with
  | zero => rfl
  | succ k ih => rw [trails, List.length_cons, ih]

theorem eq_ofNat_iff {m : Nat} (h : m < 256) : b = UInt8.ofNat m ↔ b.toNat = m := by
  rw [← UInt8.toNat_inj, UInt8.toNat_ofNat', Nat.mod_eq_of_lt h]

/-- The bytes behind the first one are those of the number that is spelled, and the first one adds the rest of it. -/
theorem number_eq_iff : (∀ t ∈ tails, continues t = true) ∧ number bits tails = n ↔
    n / 64 ^ tails.length = bits ∧ tails = trails tails.length n := by
  induction tails generalizing bits with
  | nil =>
    rw [number, List.foldl_nil, List.length_nil, Nat.pow_zero, Nat.div_one, trails, eq_comm (a := n)]
    exact ⟨fun h => ⟨h.2, rfl⟩, fun h => ⟨List.forall_mem_nil _, h.1⟩⟩
  | cons t ts ih =>
    have hpower : n / 64 ^ (ts.length + 1) = n / 64 ^ ts.length / 64 := by rw [Nat.pow_succ, Nat.div_div_eq_div_mul]
    rw [List.forall_mem_cons, and_assoc, number_cons, ih, List.length_cons, hpower, trails, List.cons.injEq,
      eq_ofNat_iff (by omega), continues_iff]
    generalize n / 64 ^ ts.length = m
    constructor
    · rintro ⟨ht, hm, hts⟩
      exact ⟨by omega, by omega, hts⟩
    · rintro ⟨hm, ht, hts⟩
      exact ⟨by omega, by omega, hts⟩

theorem spells_iff : Spells b tails n ↔
    announced? b = some (tails.length, n / 64 ^ tails.length) ∧ tails = trails tails.length n := by
  constructor
  · rintro ⟨⟨bits, hannounced, hnumber⟩, hcontinued⟩
    obtain ⟨rfl, htails⟩ := number_eq_iff.mp ⟨hcontinued, hnumber⟩
    exact ⟨hannounced, htails⟩
  · rintro ⟨hannounced, htails⟩
    obtain ⟨hcontinued, hnumber⟩ := number_eq_iff.mpr ⟨rfl, htails⟩
    exact ⟨⟨_, hannounced, hnumber⟩, hcontinued⟩

theorem eq_of_announced? {b' : UInt8} {x : Nat × Nat} (h : announced? b = some x) (h' : announced? b' = some x) :
    b = b' := by
  obtain ⟨k, bits⟩ := x
  rw [announced?_eq_some_iff] at h h'
  rw [← UInt8.toNat_inj]
  omega

theorem exists_encodeChar_eq (c : Char) : ∃ b, String.utf8EncodeChar c = b :: trails (needed c.toNat) c.toNat ∧
    announced? b = some (needed c.toNat, c.toNat / 64 ^ needed c.toNat) := by
  have hvalue : c.val.toNat = c.toNat := rfl
  have hvalid : c.toNat.isValidChar := c.valid
  simp only [announced?_eq_some_iff]
  rw [String.utf8EncodeChar.eq_1, hvalue, needed]
  generalize c.toNat = n at hvalid
  split_ifs
  any_goals omega
  all_goals
    simp only [trails, Nat.pow_zero, Nat.div_one, Nat.reducePow]
    refine ⟨_, rfl, ?_⟩
    simp only [UInt8.toNat_ofNat', true_and, false_and, or_false, false_or]
    omega

/-- The bytes of a character spell its number, and are no more than it takes. -/
theorem encodeChar_eq_cons_iff :
    String.utf8EncodeChar c = b :: tails ↔ Spells b tails c.toNat ∧ tails.length = needed c.toNat := by
  obtain ⟨b', hencode, hannounced⟩ := exists_encodeChar_eq c
  rw [hencode, spells_iff, List.cons.injEq]
  constructor
  · rintro ⟨rfl, rfl⟩
    rw [length_trails]
    exact ⟨⟨hannounced, rfl⟩, rfl⟩
  · rintro ⟨⟨hb, htails⟩, hneeded⟩
    rw [hneeded] at hb htails
    exact ⟨eq_of_announced? hannounced hb, htails.symm⟩

/-- Every character has bytes. -/
theorem exists_encodeChar_cons (c : Char) : ∃ b tails, String.utf8EncodeChar c = b :: tails ∧ Spells b tails c.toNat ∧
    tails.length = needed c.toNat := by
  obtain ⟨b, hencode, -⟩ := exists_encodeChar_eq c
  exact ⟨b, _, hencode, encodeChar_eq_cons_iff.mp hencode⟩

theorem Spells.encodeChar (h : Spells b tails n) (hn : n.isValidChar) (hneeded : tails.length = needed n) :
    String.utf8EncodeChar (Char.ofNat n) = b :: tails := by
  rw [encodeChar_eq_cons_iff, toNat_ofNat hn]
  exact ⟨h, hneeded⟩

/-- Which bytes may follow a first byte that announces any: those that lead to a number which takes as many bytes, is no
surrogate's and is not beyond the last character's. -/
theorem lead?_admits_iff {t : UInt8} :
    (∃ low high, lead? b = some ⟨bits, k, low, high⟩ ∧ low ≤ t ∧ t ≤ high) ↔
      (0x80 ≤ t.toNat ∧ t.toNat < 0xc0) ∧
        ((k = 1 ∧ b.toNat = 0xc0 + bits ∧ 2 ≤ bits ∧ bits < 0x20) ∨
          (k = 2 ∧ b.toNat = 0xe0 + bits ∧ bits < 0x10 ∧ 0x20 ≤ 64 * bits + (t.toNat - 0x80) ∧
            (64 * bits + (t.toNat - 0x80) < 0x360 ∨ 0x380 ≤ 64 * bits + (t.toNat - 0x80))) ∨
          (k = 3 ∧ b.toNat = 0xf0 + bits ∧ 0x10 ≤ 64 * bits + (t.toNat - 0x80) ∧
            64 * bits + (t.toNat - 0x80) < 0x110)) := by
  have hb := b.toNat_lt
  unfold lead?
  simp only [Bool.and_eq_true, decide_eq_true_eq, beq_iff_eq, UInt8.le_iff_toNat_le, ← UInt8.toNat_inj, UInt8.reduceToNat]
  split_ifs
  all_goals simp only [Option.some.injEq, Pending.mk.injEq, false_and, exists_false, false_iff, and_assoc,
    exists_and_left, exists_eq_left', UInt8.reduceToNat]
  all_goals omega

/-- At least one byte is announced. -/
theorem exists_missing_of_lead? {low high : UInt8} (h : lead? b = some ⟨bits, k, low, high⟩) : ∃ j, k = j + 1 := by
  unfold lead? at h
  split_ifs at h
  all_goals
    obtain ⟨-, rfl, -, -⟩ := Pending.mk.inj (Option.some.inj h)
    exact ⟨_, rfl⟩

section Scan
variable {i : Nat} {r : Except Defect (List Char × Option Partial)}

theorem map_cons_eq_ok :
    (r.map fun (ds, p) => (c :: ds, p)) = .ok (cs, none) ↔ ∃ ds, cs = c :: ds ∧ r = .ok (ds, none) := by
  constructor
  · intro h
    obtain d | ⟨ds, p⟩ := r
    · cases h
    · simp only [Except.map, Except.ok.injEq, Prod.mk.injEq] at h
      obtain ⟨rfl, rfl⟩ := h
      exact ⟨ds, rfl, rfl⟩
  · rintro ⟨ds, rfl, rfl⟩
    rfl

section Unfinished
variable {p : Partial} {low high : UInt8}

theorem scan_some_cons (hp : p.rest = ⟨bits, k + 1, low, high⟩) (h : low ≤ b ∧ b ≤ high) : scan (some p) i (b :: bs) =
    if k = 0 then (scan none (i + 1) bs).map fun (ds, p) => (Char.ofNat (64 * bits + (b.toNat - 0x80)) :: ds, p)
    else scan (some { p with length := p.length + 1, rest := ⟨64 * bits + (b.toNat - 0x80), k, 0x80, 0xbf⟩ }) (i + 1)
      bs := by
  simp only [scan, hp, h, decide_true, Bool.and_self, if_true, Nat.add_sub_cancel]
  exact if_congr (by omega) rfl rfl

theorem exists_cons_of_scan_some (hp : p.rest = ⟨bits, k + 1, low, high⟩) (h : scan (some p) i bs = .ok (cs, none)) :
    ∃ t us, bs = t :: us ∧ low ≤ t ∧ t ≤ high := by
  cases bs with
  | nil => simp [scan] at h
  | cons t us =>
    by_cases hrange : low ≤ t ∧ t ≤ high
    · exact ⟨t, us, rfl, hrange⟩
    · simp [scan, hp, hrange] at h

/-- An unfinished sequence ends with as many bytes as are missing, and is the character whose number they all spell. The
first one must be in a range, and the others, on which the induction is, only have to go on. -/
theorem scan_some_append {t : UInt8} {ts : List UInt8} (hp : p.rest = ⟨bits, ts.length + 1, low, high⟩)
    (ht : low ≤ t ∧ t ≤ high) (hts : ∀ u ∈ ts, continues u = true) (rest : List UInt8) :
    scan (some p) i (t :: (ts ++ rest)) = (scan none (i + 1 + ts.length) rest).map fun (ds, p) =>
      (Char.ofNat (number bits (t :: ts)) :: ds, p) := by
  rw [scan_some_cons hp ht, number_cons]
  induction ts generalizing p bits low high i t with
  | nil => rfl
  | cons u us ih =>
    obtain ⟨hu, hus⟩ := List.forall_mem_cons.mp hts
    have hrange : 0x80 ≤ u ∧ u ≤ 0xbf := by simpa [continues] using hu
    rw [if_neg (by simp), List.cons_append, scan_some_cons rfl hrange, ih rfl hrange hus, number_cons, List.length_cons,
      Nat.add_comm us.length, ← Nat.add_assoc]

theorem exists_tails_of_scan_some (hp : p.rest = ⟨bits, k + 1, low, high⟩) (h : scan (some p) i bs = .ok (cs, none)) :
    ∃ t ts rest, bs = t :: (ts ++ rest) ∧ ts.length = k ∧ (low ≤ t ∧ t ≤ high) ∧ ∀ u ∈ ts, continues u = true := by
  induction k generalizing p bits low high i bs with
  | zero =>
    obtain ⟨t, rest, rfl, hrange⟩ := exists_cons_of_scan_some hp h
    exact ⟨t, [], rest, rfl, rfl, hrange, List.forall_mem_nil _⟩
  | succ k ih =>
    obtain ⟨t, us, rfl, hrange⟩ := exists_cons_of_scan_some hp h
    rw [scan_some_cons hp hrange, if_neg (Nat.succ_ne_zero k)] at h
    obtain ⟨u, us, rest, rfl, rfl, hu, hus⟩ := ih rfl h
    refine ⟨t, u :: us, rest, rfl, rfl, hrange, List.forall_mem_cons.mpr ⟨?_, hus⟩⟩
    simpa [continues] using hu

end Unfinished

/-- A first byte that announces others, and the byte behind it, are let through exactly if they and any other bytes that
go on spell the number of a character and take no more bytes than it needs. -/
theorem lead?_iff_spells {t : UInt8} {ts : List UInt8} (hts : ∀ u ∈ ts, continues u = true) :
    (∃ low high, lead? b = some ⟨bits, ts.length + 1, low, high⟩ ∧ low ≤ t ∧ t ≤ high) ↔
      announced? b = some (ts.length + 1, bits) ∧ continues t = true ∧ (number bits (t :: ts)).isValidChar ∧
        needed (number bits (t :: ts)) = ts.length + 1 := by
  rw [lead?_admits_iff, announced?_eq_some_iff, continues_iff, number_cons, needed_eq_iff, Nat.isValidChar]
  obtain ⟨hn, -⟩ := number_eq_iff.mp ⟨hts, rfl⟩
  generalize number (64 * bits + (t.toNat - 0x80)) ts = n at hn
  generalize ts.length = k at hn
  obtain rfl | rfl | rfl | hk : k = 0 ∨ k = 1 ∨ k = 2 ∨ 3 ≤ k := by omega
  all_goals omega

theorem announced?_eq_zero_iff : announced? b = some (0, bits) ↔ b < 0x80 ∧ b.toNat = bits := by
  have hlt : b < 0x80 ↔ b.toNat < 0x80 := UInt8.lt_iff_toNat_lt
  rw [announced?_eq_some_iff, hlt]
  omega

/-- The bytes of a character are read as this character. -/
theorem scan_encodeChar (c : Char) (i : Nat) (rest : List UInt8) : scan none i (String.utf8EncodeChar c ++ rest) =
    (scan none (i + (String.utf8EncodeChar c).length) rest).map fun (ds, p) => (c :: ds, p) := by
  obtain ⟨b, tails, hencode, ⟨⟨bits, hannounced, hnumber⟩, hcontinued⟩, hneeded⟩ := exists_encodeChar_cons c
  rw [hencode, List.length_cons, Nat.add_comm tails.length, ← Nat.add_assoc]
  cases tails with
  | nil =>
    obtain ⟨hb, rfl⟩ := announced?_eq_zero_iff.mp hannounced
    rw [List.singleton_append, scan, if_pos hb, ← Char.ofNat_toNat c, ← hnumber]
    rfl
  | cons t ts =>
    obtain ⟨ht, hts⟩ := List.forall_mem_cons.mp hcontinued
    have hvalid : c.toNat.isValidChar := c.valid
    rw [← hnumber] at hvalid hneeded
    obtain ⟨low, high, hlead, hrange⟩ := (lead?_iff_spells hts).mpr ⟨hannounced, ht, hvalid, hneeded.symm⟩
    have hb : ¬b < 0x80 := by
      intro hlt
      cases (announced?_eq_zero_iff.mpr ⟨hlt, rfl⟩).symm.trans hannounced
    rw [List.cons_append, List.cons_append, scan, if_neg hb, hlead]
    dsimp only
    rw [scan_some_append rfl hrange hts, hnumber, Char.ofNat_toNat, List.length_cons, Nat.add_comm ts.length,
      ← Nat.add_assoc]

/-- Reading that does not fail begins with a character. -/
theorem exists_encodeChar_of_scan (h : scan none i (b :: bs) = .ok (cs, none)) :
    ∃ c rest, b :: bs = String.utf8EncodeChar c ++ rest := by
  by_cases hb : b < 0x80
  · have hspells : Spells b [] b.toNat :=
      ⟨⟨_, announced?_eq_zero_iff.mpr ⟨hb, rfl⟩, rfl⟩, List.forall_mem_nil _⟩
    have hlt : b.toNat < 0x80 := UInt8.lt_iff_toNat_lt.mp hb
    refine ⟨Char.ofNat b.toNat, bs, ?_⟩
    rw [hspells.encodeChar (Or.inl (by omega)) (needed_eq_iff.mpr (Or.inl ⟨rfl, hlt⟩)).symm]
    rfl
  · rw [scan, if_neg hb] at h
    split at h
    · cases h
    · next p hlead =>
      obtain ⟨bits, missing, low, high⟩ := p
      obtain ⟨k, rfl⟩ : ∃ k, missing = k + 1 := exists_missing_of_lead? hlead
      obtain ⟨t, ts, rest, rfl, rfl, ht, hts⟩ := exists_tails_of_scan_some rfl h
      obtain ⟨hannounced, ht, hvalid, hneeded⟩ := (lead?_iff_spells hts).mp ⟨low, high, hlead, ht⟩
      have hspells : Spells b (t :: ts) (number bits (t :: ts)) :=
        ⟨⟨bits, hannounced, rfl⟩, List.forall_mem_cons.mpr ⟨ht, hts⟩⟩
      refine ⟨Char.ofNat (number bits (t :: ts)), rest, ?_⟩
      rw [hspells.encodeChar hvalid hneeded.symm]
      rfl

/-- Bytes are read as those characters whose bytes they are. -/
theorem scan_eq_ok_iff : scan none i bs = .ok (cs, none) ↔ bs = cs.flatMap String.utf8EncodeChar := by
  induction cs generalizing i bs with
  | nil =>
    cases bs with
    | nil => simp [scan]
    | cons b bs =>
      refine iff_of_false ?_ (List.cons_ne_nil b bs)
      intro h
      obtain ⟨c, rest, hbs⟩ := exists_encodeChar_of_scan h
      rw [hbs, scan_encodeChar, map_cons_eq_ok] at h
      obtain ⟨ds, hds, -⟩ := h
      cases hds
  | cons c cs ih =>
    rw [List.flatMap_cons]
    constructor
    · intro h
      cases bs with
      | nil => simp [scan] at h
      | cons b bs =>
        obtain ⟨d, rest, hbs⟩ := exists_encodeChar_of_scan h
        rw [hbs, scan_encodeChar, map_cons_eq_ok] at h
        obtain ⟨ds, hds, hrest⟩ := h
        obtain ⟨rfl, rfl⟩ := List.cons.inj hds
        rw [hbs, ih.mp hrest]
    · rintro rfl
      rw [scan_encodeChar, map_cons_eq_ok]
      exact ⟨cs, rfl, ih.mpr rfl⟩

end Scan

/-- The bytes of a text. -/
theorem toUTF8_toList (s : String) : s.toUTF8.data.toList = s.toList.flatMap String.utf8EncodeChar := by
  have hbytes : (String.ofList s.toList).toUTF8.data.toList = s.toList.flatMap String.utf8EncodeChar :=
    List.toList_data_toByteArray
  rwa [String.ofList_toList] at hbytes

/-- Bytes are read as that text whose bytes they are, and not read at all if they are those of none. -/
theorem decode_eq_ok_iff {s : String} : decode bs = .ok s ↔ bs = s.toUTF8.data.toList := by
  rw [toUTF8_toList, ← scan_eq_ok_iff (i := 0), decode]
  generalize scan none 0 bs = r
  obtain d | ⟨cs, _ | p⟩ := r
  · exact iff_of_false nofun nofun
  · simp only [bind, Except.bind, pure, Except.pure, Except.ok.injEq, Prod.mk.injEq, and_true]
    exact ⟨fun h => by rw [← h, String.toList_ofList], fun h => by rw [h, String.ofList_toList]⟩
  · exact iff_of_false nofun nofun

section Malformed

theorem announced?_eq_none_iff : announced? b = none ↔ continues b = true ∨ 0xf8 ≤ b.toNat := by
  rw [continues_iff, announced?]
  split_ifs
  all_goals simp only [false_iff, true_iff]
  all_goals omega

theorem Spells.needed_le (h : Spells b tails n) : needed n ≤ tails.length := by
  obtain ⟨hannounced, -⟩ := spells_iff.mp h
  rw [announced?_eq_some_iff] at hannounced
  obtain hk | hk | hk | hk : tails.length = 0 ∨ tails.length = 1 ∨ tails.length = 2 ∨ tails.length = 3 := by omega
  all_goals
    rw [hk] at hannounced ⊢
    unfold needed
    split_ifs
    all_goals omega

/-- Every byte begins the bytes of a character or something malformed. -/
theorem encodeChar_or_malformed (b : UInt8) (bs : List UInt8) :
    (∃ c rest, b :: bs = String.utf8EncodeChar c ++ rest) ∨ Malformed (b :: bs) := by
  cases hannounced : announced? b with
  | none =>
    obtain hb | hb := announced?_eq_none_iff.mp hannounced
    · exact Or.inr (.stray hb bs)
    · exact Or.inr (.startless hb bs)
  | some x =>
    obtain ⟨k, bits⟩ := x
    have hcontinued : ∀ t ∈ bs.takeWhile continues, continues t = true := fun t ht => List.mem_takeWhile_imp ht
    have hbroken : ∀ t ∈ (bs.dropWhile continues).head?, continues t = false := by
      intro t ht
      have hhead := List.head?_dropWhile_not continues bs
      rwa [Option.mem_def.mp ht] at hhead
    rw [← List.takeWhile_append_dropWhile (p := continues) (l := bs)]
    generalize bs.takeWhile continues = ts at hcontinued
    generalize bs.dropWhile continues = us at hbroken
    by_cases hlt : ts.length < k
    · exact Or.inr (.truncated hannounced hcontinued hlt hbroken)
    · -- of the bytes that go on only as many as are announced belong to the sequence
      have hlength : (ts.take k).length = k := List.length_take_of_le (Nat.not_lt.mp hlt)
      have hspells : Spells b (ts.take k) (number bits (ts.take k)) :=
        ⟨⟨bits, by rw [hlength, hannounced], rfl⟩, fun t ht => hcontinued t (List.mem_of_mem_take ht)⟩
      rw [← List.take_append_drop k ts, List.append_assoc]
      obtain hneeded | hneeded := Nat.lt_or_eq_of_le hspells.needed_le
      · exact Or.inr (.overlong hspells hneeded _)
      · by_cases hvalid : (number bits (ts.take k)).isValidChar
        · refine Or.inl ⟨Char.ofNat (number bits (ts.take k)), ts.drop k ++ us, ?_⟩
          rw [hspells.encodeChar hvalid hneeded.symm]
          rfl
        · rw [Nat.isValidChar, not_or, not_and_or] at hvalid
          by_cases hsurrogate : number bits (ts.take k) < 0xe000
          · exact Or.inr (.surrogate hspells (by omega) _)
          · exact Or.inr (.beyond hspells (by omega) _)

/-- Sequences of as many bytes as their first one announces are alike if they begin the same bytes. -/
theorem Spells.eq {b' : UInt8} {tails' rest' : List UInt8} {n' : Nat} (h : Spells b tails n) (h' : Spells b' tails' n')
    (heq : b :: (tails ++ rest) = b' :: (tails' ++ rest')) : tails = tails' ∧ n = n' := by
  obtain ⟨⟨bits, hannounced, rfl⟩, -⟩ := h
  obtain ⟨⟨bits', hannounced', rfl⟩, -⟩ := h'
  obtain ⟨rfl, htails⟩ := List.cons.inj heq
  obtain ⟨hlength, rfl⟩ := Prod.mk.inj (Option.some.inj (hannounced.symm.trans hannounced'))
  obtain ⟨rfl, -⟩ := List.append_inj htails hlength
  exact ⟨rfl, rfl⟩

theorem Malformed.ne_encodeChar_append (h : Malformed bs) (c : Char) (rest : List UInt8) :
    bs ≠ String.utf8EncodeChar c ++ rest := by
  obtain ⟨b', tails', hencode, hspells, hneeded⟩ := exists_encodeChar_cons c
  have hvalid : c.toNat.isValidChar := c.valid
  rw [Nat.isValidChar] at hvalid
  rw [hencode, List.cons_append]
  obtain ⟨⟨bits', hannounced', -⟩, hcontinued⟩ := id hspells
  intro heq
  cases h with
  | stray hb _ =>
    obtain ⟨rfl, -⟩ := List.cons.inj heq
    cases (announced?_eq_none_iff.mpr (Or.inl hb)).symm.trans hannounced'
  | startless hb _ =>
    obtain ⟨rfl, -⟩ := List.cons.inj heq
    cases (announced?_eq_none_iff.mpr (Or.inr hb)).symm.trans hannounced'
  | truncated hannounced htails hlt hbroken =>
    obtain ⟨rfl, htails⟩ := List.cons.inj heq
    obtain ⟨rfl, -⟩ := Prod.mk.inj (Option.some.inj (hannounced.symm.trans hannounced'))
    obtain ⟨more, rfl, rfl⟩ | ⟨more, rfl, -⟩ := List.append_eq_append_iff.mp htails
    · cases more with
      | nil => exact absurd hlt (by simp)
      | cons t more => cases (hbroken t rfl).symm.trans (hcontinued t (by simp))
    · rw [List.length_append] at hlt
      omega
  | overlong h hn _ =>
    obtain ⟨rfl, rfl⟩ := h.eq hspells heq
    omega
  | surrogate h hn _ =>
    obtain ⟨-, rfl⟩ := h.eq hspells heq
    omega
  | beyond h hn _ =>
    obtain ⟨-, rfl⟩ := h.eq hspells heq
    omega

theorem Malformed.ne_flatMap (h : Malformed bs) (cs : List Char) : bs ≠ cs.flatMap String.utf8EncodeChar := by
  cases cs with
  | nil => rintro rfl; cases h
  | cons c cs => exact h.ne_encodeChar_append c _

/-- All bytes are those of a text, followed by nothing or by something malformed. -/
theorem exists_text_append (bs : List UInt8) :
    ∃ (cs : List Char) (rest : List UInt8), bs = cs.flatMap String.utf8EncodeChar ++ rest ∧
      (rest = [] ∨ Malformed rest) := by
  induction hlength : bs.length using Nat.strongRecOn generalizing bs with
  | ind n ih =>
    cases bs with
    | nil => exact ⟨[], [], rfl, Or.inl rfl⟩
    | cons b bs =>
      obtain ⟨c, more, hmore⟩ | hmalformed := encodeChar_or_malformed b bs
      · obtain ⟨b', tails, hencode, -⟩ := exists_encodeChar_cons c
        have hlt : more.length < n := by
          rw [← hlength, hmore, hencode, List.length_append, List.length_cons]
          omega
        obtain ⟨cs, rest, rfl, hrest⟩ := ih more.length hlt more rfl
        exact ⟨c :: cs, rest, by rw [hmore, List.flatMap_cons, List.append_assoc], hrest⟩
      · exact ⟨[], b :: bs, rfl, Or.inr hmalformed⟩

/-- Behind a text the bytes of another text are needed to go on. -/
theorem exists_flatMap_of_append {ds : List Char}
    (h : scan none n (cs.flatMap String.utf8EncodeChar ++ rest) = .ok (ds, none)) :
    ∃ es : List Char, rest = es.flatMap String.utf8EncodeChar := by
  induction cs generalizing n ds with
  | nil => exact ⟨ds, scan_eq_ok_iff.mp h⟩
  | cons c cs ih =>
    rw [List.flatMap_cons, List.append_assoc, scan_encodeChar, map_cons_eq_ok] at h
    obtain ⟨es, -, hes⟩ := h
    exact ih hes

/-- Bytes are not read exactly if something malformed comes behind those of a text. -/
theorem decode_error_iff : (∃ d, decode bs = .error d) ↔
    ∃ (s : String) (rest : List UInt8), bs = s.toUTF8.data.toList ++ rest ∧ Malformed rest := by
  constructor
  · rintro ⟨d, hd⟩
    obtain ⟨cs, rest, rfl, hrest⟩ := exists_text_append bs
    refine ⟨String.ofList cs, rest, by rw [toUTF8_toList, String.toList_ofList], hrest.resolve_left ?_⟩
    rintro rfl
    have hok : decode (cs.flatMap String.utf8EncodeChar ++ []) = .ok (String.ofList cs) := by
      rw [decode_eq_ok_iff, toUTF8_toList, String.toList_ofList, List.append_nil]
    cases hd.symm.trans hok
  · rintro ⟨s, rest, rfl, hrest⟩
    cases hdecode : decode (s.toUTF8.data.toList ++ rest) with
    | error d => exact ⟨d, rfl⟩
    | ok t =>
      rw [decode_eq_ok_iff, toUTF8_toList, toUTF8_toList, ← scan_eq_ok_iff (i := 0)] at hdecode
      obtain ⟨es, hes⟩ := exists_flatMap_of_append hdecode
      exact absurd hes (hrest.ne_flatMap es)

end Malformed

end Utf8

end Brainfuck.Text
