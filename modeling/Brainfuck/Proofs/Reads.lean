import Brainfuck.Input

/-! Reads within bounds, one by one. Every read uses up a value as long as values are pending, so that a value
that fits, or a failure, is found behind them at the latest, unless one that does not fit is repeated forever. -/
namespace Brainfuck

/-- Whether what comes behind the last value is passed over forever. -/
def Ending.Recurs (lo hi : Int) (ending : Ending) : Prop :=
  ∃ v, ending = .repeats v ∧ v.between? lo hi = some false

namespace Input
variable {lo hi : Int} {input input' : Input} {n : Nat} {r : Except Fault Datum} {v : Datum}

/-- Reads up to the first value within bounds: how many they are, what comes of the last one, and the input
behind it. -/
inductive Reads (lo hi : Int) : Input → Nat → Except Fault Datum → Input → Prop where
  | fails {input input' : Input} {f : Fault} (h : input.read = (.error f, input')) :
      Reads lo hi input 1 (.error f) input'
  | mistyped {input input' : Input} {v : Datum} (h : input.read = (.ok v, input'))
      (hv : v.between? lo hi = none) : Reads lo hi input 1 (.error .wrongType) input'
  | finds {input input' : Input} {v : Datum} (h : input.read = (.ok v, input'))
      (hv : v.between? lo hi = some true) : Reads lo hi input 1 (.ok v) input'
  | passes {input rest input' : Input} {v : Datum} {n : Nat} {r : Except Fault Datum}
      (h : input.read = (.ok v, rest)) (hv : v.between? lo hi = some false)
      (hr : Reads lo hi rest n r input') : Reads lo hi input (n + 1) r input'

/-- A read uses up the first value that is pending. -/
theorem read_rest (input : Input) : input.read.2 = { input with pending := input.pending.drop 1 } := by
  obtain ⟨_ | ⟨v, vs⟩, ending⟩ := input
  · rfl
  · rfl

/-- Reads use up as many values as they are, as long as values are pending. -/
theorem Reads.rest_eq (h : Reads lo hi input n r input') :
    input' = { input with pending := input.pending.drop n } := by
  induction h with
  | @fails input _ _ h | @mistyped input _ _ h hv | @finds input _ _ h hv =>
    have hrest := input.read_rest
    rwa [h] at hrest
  | @passes input rest input' v n r h hv hr ih =>
    have hrest := input.read_rest
    rw [h] at hrest
    rw [ih, show rest = _ from hrest, List.drop_drop, Nat.add_comm]

/-- What a search within bounds comes to is what the reads come to. -/
theorem Reads.readWithin_eq (h : Reads lo hi input n r input') :
    (input.readWithin lo hi).outcome = r.mapError .fault ∧ (input.readWithin lo hi).rest = input' := by
  induction h with
  | @fails input input' f h =>
    obtain ⟨_ | ⟨w, vs⟩, ending⟩ := input
    · obtain ⟨hvalue, rfl⟩ := Prod.mk.inj h
      have hvalue : ending.value = .error f := hvalue
      simp only [readWithin, seek, hvalue]
      exact ⟨rfl, trivial⟩
    · cases h
  | @mistyped input input' v h hv =>
    obtain ⟨_ | ⟨w, vs⟩, ending⟩ := input
    · obtain ⟨hvalue, rfl⟩ := Prod.mk.inj h
      have hvalue : ending.value = .ok v := hvalue
      simp only [readWithin, seek, hvalue, hv]
      exact ⟨rfl, trivial⟩
    · cases h
      simp only [readWithin, seek, hv]
      exact ⟨rfl, trivial⟩
  | @finds input input' v h hv =>
    obtain ⟨_ | ⟨w, vs⟩, ending⟩ := input
    · obtain ⟨hvalue, rfl⟩ := Prod.mk.inj h
      have hvalue : ending.value = .ok v := hvalue
      simp only [readWithin, seek, hvalue, hv]
      exact ⟨rfl, trivial⟩
    · cases h
      simp only [readWithin, seek, hv]
      exact ⟨rfl, trivial⟩
  | @passes input rest input' v n r h hv hr ih =>
    obtain ⟨_ | ⟨w, vs⟩, ending⟩ := input
    · -- the value is read again and again
      obtain ⟨-, rfl⟩ := Prod.mk.inj h
      exact ih
    · cases h
      simp only [readWithin, seek, hv]
      exact ih

/-- A search that comes to an end takes at most one read more than values are pending. -/
theorem exists_reads (h : (input.readWithin lo hi).outcome ≠ .error .unfinished) :
    ∃ n r, n ≤ input.pending.length + 1 ∧ Reads lo hi input n r (input.readWithin lo hi).rest ∧
      (input.readWithin lo hi).outcome = r.mapError .fault := by
  suffices hreads : ∃ n r input', n ≤ input.pending.length + 1 ∧ Reads lo hi input n r input' by
    obtain ⟨n, r, input', hn, hr⟩ := hreads
    obtain ⟨houtcome, rfl⟩ := hr.readWithin_eq
    exact ⟨n, r, hn, hr, houtcome⟩
  obtain ⟨pending, ending⟩ := input
  induction pending with
  | nil =>
    have hread : Input.read ⟨[], ending⟩ = (ending.value, ⟨[], ending⟩) := rfl
    cases hvalue : ending.value with
    | error f =>
      rw [hvalue] at hread
      exact ⟨1, _, _, Nat.le_refl 1, .fails hread⟩
    | ok v =>
      rw [hvalue] at hread
      cases hv : v.between? lo hi with
      | none => exact ⟨1, _, _, Nat.le_refl 1, .mistyped hread hv⟩
      | some fits =>
        cases fits with
        | true => exact ⟨1, _, _, Nat.le_refl 1, .finds hread hv⟩
        | false => exact absurd (by simp only [readWithin, seek, hvalue, hv]) h
  | cons v vs ih =>
    cases hv : v.between? lo hi with
    | none => exact ⟨1, _, _, by simp, .mistyped rfl hv⟩
    | some fits =>
      cases fits with
      | true => exact ⟨1, _, _, by simp, .finds rfl hv⟩
      | false =>
        simp only [readWithin, seek, hv] at h
        obtain ⟨n, r, input', hn, hr⟩ := ih h
        exact ⟨n + 1, r, input', Nat.succ_le_succ hn, .passes rfl hv hr⟩

/-- Only a repeated value that does not fit is read without end. -/
theorem readWithin_outcome_ne (h : ¬ input.ending.Recurs lo hi) :
    (input.readWithin lo hi).outcome ≠ .error .unfinished := by
  obtain ⟨pending, ending⟩ := input
  intro houtcome
  induction pending with
  | nil =>
    simp only [readWithin, seek] at houtcome
    split at houtcome
    · cases houtcome
    · next v hvalue =>
      split at houtcome
      · cases houtcome
      · next hv =>
        cases ending with
        | repeats w =>
          cases hvalue
          exact h ⟨_, rfl, hv⟩
        | exhausted => cases hvalue
        | ended => cases hvalue
      · cases houtcome
  | cons v vs ih =>
    simp only [readWithin, seek] at houtcome
    split at houtcome
    · cases houtcome
    · exact ih h houtcome
    · cases houtcome

end Input

end Brainfuck
