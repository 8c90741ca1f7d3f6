import Mathlib.Logic.Function.Basic
import Brainfuck.Api.Store

/-! The store by its names: what each operation does to the record of one name, and that it does nothing to
the others. -/
namespace Brainfuck.Api

/-- No number is given twice. -/
theorem numbered_injective : Function.Injective numbered := by
  have hinverse :
      Function.LeftInverse (fun s : String => Nat.ofDigitChars 10 (s.toList.drop 1) 0) numbered := by
    intro k
    have hlist : (numbered k).toList = 'S' :: Nat.toDigits 10 k := by
      show ("S" ++ toString k).toList = _
      simp
    simp [hlist]
  exact hinverse.injective

namespace Store

def find (s : Store) (id : String) : Option Record :=
  s.records.lookup id

variable {s s' : Store} {id other : String} {r : Record}

theorem get_of_find (h : s.find id = some r) : s.get id = .ok r := by
  have hlookup : s.records.lookup id = some r := h
  simp only [get, hlookup]

theorem get_of_find_none (h : s.find id = none) : s.get id = .error (.unknownSession id) := by
  have hlookup : s.records.lookup id = none := h
  simp only [get, hlookup]

section Lookup
variable {records : List (String × Record)}

theorem lookup_cons_if (id j : String) (r : Record) (records : List (String × Record)) :
    ((j, r) :: records).lookup id = if id = j then some r else records.lookup id := by
  rw [List.lookup_cons]
  by_cases h : id = j
  · simp [h]
  · simp [h, beq_false_of_ne h]

theorem lookup_replace (r : Record) (id : String) (records : List (String × Record)) :
    (records.map fun (i, q) => if i == r.id then (i, r) else (i, q)).lookup id =
      if id = r.id then (records.lookup id).map fun _ => r else records.lookup id := by
  induction records with
  | nil => simp
  | cons entry records ih =>
    obtain ⟨j, q⟩ := entry
    rw [List.map_cons, lookup_cons_if id j q]
    by_cases hj : j = r.id
    · have hentry : (if j == r.id then (j, r) else (j, q)) = (j, r) := if_pos (by simp [hj])
      dsimp only
      rw [hentry, lookup_cons_if, ih, ← hj]
      split <;> rfl
    · have hentry : (if j == r.id then (j, r) else (j, q)) = (j, q) := if_neg (by simp [hj])
      dsimp only
      rw [hentry, lookup_cons_if, ih]
      by_cases hid : id = j
      · have hne : id ≠ r.id := fun h => hj (hid.symm.trans h)
        rw [if_pos hid, if_neg hne, if_pos hid]
      · rw [if_neg hid, if_neg hid]

theorem lookup_without (id other : String) (records : List (String × Record)) :
    (records.filter fun (i, _) => i != id).lookup other =
      if other = id then none else records.lookup other := by
  induction records with
  | nil => simp
  | cons entry records ih =>
    obtain ⟨j, q⟩ := entry
    rw [List.filter_cons, lookup_cons_if]
    by_cases hj : j = id
    · rw [if_neg (by simp [hj]), ih]
      by_cases hother : other = id
      · simp [hother]
      · simp [hother, hj]
    · rw [if_pos (by simpa using hj), lookup_cons_if, ih]
      by_cases hother : other = j
      · simp [hother, hj]
      · simp [hother]

end Lookup

theorem find_put (s : Store) (r : Record) (id : String) :
    (s.put r).find id = if id = r.id then (s.find id).map fun _ => r else s.find id :=
  lookup_replace r id s.records

theorem find_put_of_ne (h : id ≠ r.id) : (s.put r).find id = s.find id := by
  rw [find_put, if_neg h]

theorem find_put_self {q : Record} (h : s.find r.id = some q) : (s.put r).find r.id = some r := by
  rw [find_put, if_pos rfl, h]
  rfl

theorem remove_of_find (h : s.find id = some r) :
    s.remove id = ({ s with records := s.records.filter fun (i, _) => i != id }, true) := by
  have hlookup : s.records.lookup id = some r := h
  simp only [remove, hlookup]

theorem remove_of_find_none (h : s.find id = none) : s.remove id = (s, false) := by
  have hlookup : s.records.lookup id = none := h
  simp only [remove, hlookup]

theorem find_remove (s : Store) (id other : String) :
    (s.remove id).1.find other = if other = id then none else s.find other := by
  cases h : s.find id with
  | none =>
    rw [remove_of_find_none h]
    split
    · next hother => rw [hother, h]
    · rfl
  | some r =>
    rw [remove_of_find h]
    exact lookup_without id other s.records

/-- A store that draws no name twice, and whose records stand under their own names, which have been drawn
before. -/
structure Tidy (s : Store) : Prop where
  unrepeated : Function.Injective s.fresh
  own : ∀ {id r}, s.find id = some r → r.id = id
  drawn : ∀ {id r}, s.find id = some r → ∃ k < s.created, id = s.fresh k

/-- The next name is a new one. -/
theorem Tidy.find_nextId (h : s.Tidy) : s.find s.nextId = none := by
  cases hfind : s.find s.nextId with
  | none => rfl
  | some r =>
    obtain ⟨k, hk, hname⟩ := h.drawn hfind
    have hequal : s.created = k := h.unrepeated hname
    omega

def append (s : Store) (r : Record) : Store :=
  { s with records := s.records ++ [(s.nextId, r)], created := s.created + 1 }

theorem find_append_self (h : s.Tidy) (r : Record) : (s.append r).find s.nextId = some r := by
  have happend : (s.append r).find s.nextId = (s.find s.nextId).or ([(s.nextId, r)].lookup s.nextId) :=
    List.lookup_append
  rw [happend, h.find_nextId, lookup_cons_if, if_pos rfl]
  rfl

theorem find_append_of_ne (r : Record) (hid : id ≠ s.nextId) : (s.append r).find id = s.find id := by
  have happend : (s.append r).find id = (s.find id).or ([(s.nextId, r)].lookup id) := List.lookup_append
  rw [happend, lookup_cons_if, if_neg hid]
  simp

end Store

end Brainfuck.Api
