import Mathlib.Tactic.SplitIfs
import Brainfuck.Input

/-! Inputs of integers. A read within bounds finds the first integer that lies within them and uses up
everything in front of it. -/
namespace Brainfuck

/-- What a search within bounds finds behind the last value. A repeated value that does not fit is passed
over forever. -/
def Ending.within (lo hi : Int) : Ending → Except Stop Int
  | repeats (.integer n) => if lo ≤ n ∧ n ≤ hi then .ok n else .error .unfinished
  | repeats _ => .error .unfinished
  | exhausted => .error (.fault .inputExhausted)
  | ended => .error (.fault .inputEnded)

theorem Ending.within_fault {lo hi : Int} {ending : Ending} {f : Fault}
    (h : ending.within lo hi = .error (.fault f)) : ending.value = .error f := by
  unfold within at h
  split at h
  · split_ifs at h
    cases h
  · cases h
  · cases h
    rfl
  · cases h
    rfl

namespace Input

/-- All values are integers, also the one that is repeated at the end. -/
structure Integral (input : Input) : Prop where
  pending : ∀ v ∈ input.pending, ∃ n, v = .integer n
  ending : ∀ v, input.ending = .repeats v → ∃ n, v = .integer n

theorem codePoints_integral (s : String) : ∀ v ∈ codePoints s, ∃ n, v = .integer n := by
  intro v hv
  obtain ⟨c, -, rfl⟩ := List.mem_map.mp hv
  exact ⟨_, rfl⟩

theorem integral_ofStream (bytes : List UInt8) : (ofStream bytes).Integral := by
  constructor
  · intro v hv
    obtain ⟨b, -, rfl⟩ := List.mem_map.mp hv
    exact ⟨_, rfl⟩
  · rintro v ⟨⟩

/-- The first integer within bounds, and the values behind it. -/
def firstWithin (lo hi : Int) : List Datum → Option (Int × List Datum)
  | [] => none
  | .integer n :: rest => if lo ≤ n ∧ n ≤ hi then some (n, rest) else firstWithin lo hi rest
  | _ :: rest => firstWithin lo hi rest

/-- The integer that a read within bounds gives, if there is one, and the input behind it. -/
def search (lo hi : Int) (input : Input) : Except Stop Int × Input :=
  match firstWithin lo hi input.pending with
  | some (n, rest) => (.ok n, { input with pending := rest })
  | none => (input.ending.within lo hi, { input with pending := [] })

theorem between?_integer (lo hi n : Int) :
    (Datum.integer n).between? lo hi = some (decide (lo ≤ n ∧ n ≤ hi)) := by
  simp [Datum.between?]

theorem firstWithin_some {lo hi n : Int} {vs rest : List Datum}
    (h : firstWithin lo hi vs = some (n, rest)) : (lo ≤ n ∧ n ≤ hi) ∧ ∀ v ∈ rest, v ∈ vs := by
  induction vs with
  | nil => cases h
  | cons w vs ih =>
    have hlater : firstWithin lo hi vs = some (n, rest) →
        (lo ≤ n ∧ n ≤ hi) ∧ ∀ v ∈ rest, v ∈ w :: vs :=
      fun h' => ⟨(ih h').1, fun v hv => List.mem_cons_of_mem _ ((ih h').2 v hv)⟩
    cases w with
    | integer k =>
      simp only [firstWithin] at h
      split_ifs at h with hk
      · obtain ⟨rfl, rfl⟩ := Prod.mk.inj (Option.some.inj h)
        exact ⟨hk, fun v hv => List.mem_cons_of_mem _ hv⟩
      · exact hlater h
    | _ => exact hlater h

/-- Whatever a search finds lies within the bounds, and integers are left behind it. -/
theorem search_ok {lo hi n : Int} {input : Input} (h : (search lo hi input).1 = .ok n) :
    lo ≤ n ∧ n ≤ hi := by
  unfold search at h
  split at h
  · next hfirst =>
    obtain rfl := Except.ok.inj h
    exact (firstWithin_some hfirst).1
  · unfold Ending.within at h
    split at h
    · split_ifs at h with hn
      obtain rfl := Except.ok.inj h
      exact hn
    all_goals cases h

/-- A search fails only where nothing is left, and in the way of the ending. -/
theorem search_error {lo hi : Int} {input : Input} {e : Stop} (h : (search lo hi input).1 = .error e) :
    input.ending.within lo hi = .error e := by
  unfold search at h
  split at h
  · cases h
  · exact h

theorem search_ending (lo hi : Int) (input : Input) : (search lo hi input).2.ending = input.ending := by
  unfold search
  split <;> rfl

theorem Integral.search {input : Input} (h : input.Integral) (lo hi : Int) :
    (input.search lo hi).2.Integral := by
  unfold Input.search
  split
  · next hfirst => exact ⟨fun v hv => h.pending v ((firstWithin_some hfirst).2 v hv), h.ending⟩
  · exact ⟨by simp, h.ending⟩

private theorem seek_eq_search {lo hi : Int} {ending : Ending} {vs : List Datum}
    (h : Integral ⟨vs, ending⟩) :
    (seek lo hi ending vs).outcome = (search lo hi ⟨vs, ending⟩).1.map Datum.integer ∧
      (seek lo hi ending vs).rest = (search lo hi ⟨vs, ending⟩).2 := by
  induction vs with
  | nil =>
    cases ending with
    | exhausted => exact ⟨rfl, rfl⟩
    | ended => exact ⟨rfl, rfl⟩
    | repeats v =>
      obtain ⟨n, rfl⟩ := h.ending v rfl
      simp only [seek, Ending.value, between?_integer, search, firstWithin, Ending.within]
      by_cases hn : lo ≤ n ∧ n ≤ hi
      · simp [hn, Except.map]
      · simp [hn, Except.map]
  | cons v vs ih =>
    obtain ⟨k, rfl⟩ := h.pending v List.mem_cons_self
    have htail := ih ⟨fun w hw => h.pending w (List.mem_cons_of_mem _ hw), h.ending⟩
    simp only [search] at htail
    simp only [seek, between?_integer, search, firstWithin]
    by_cases hk : lo ≤ k ∧ k ≤ hi
    · simp [hk, Except.map]
    · simpa [hk] using htail

/-- Reading from an input of integers is a search. -/
theorem readWithin_eq_search {input : Input} (h : input.Integral) (lo hi : Int) :
    (input.readWithin lo hi).outcome = (input.search lo hi).1.map Datum.integer ∧
      (input.readWithin lo hi).rest = (input.search lo hi).2 :=
  seek_eq_search h

end Input

end Brainfuck
