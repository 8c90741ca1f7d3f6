/-! Calls in a row, each of which changes a state and has an answer. -/
namespace Brainfuck.Calls

variable {σ γ ρ : Type} (call : σ → γ → σ × ρ)

def after (s : σ) : List γ → σ
  | [] => s
  | c :: cs => after (call s c).1 cs

def answers (s : σ) : List γ → List (γ × ρ)
  | [] => []
  | c :: cs => (c, (call s c).2) :: answers (call s c).1 cs

theorem after_append (s : σ) (cs ds : List γ) :
    after call s (cs ++ ds) = after call (after call s cs) ds := by
  induction cs generalizing s with
  | nil => rfl
  | cons c cs ih => exact ih _

theorem answers_append (s : σ) (cs ds : List γ) :
    answers call s (cs ++ ds) = answers call s cs ++ answers call (after call s cs) ds := by
  induction cs generalizing s with
  | nil => rfl
  | cons c cs ih => exact congrArg _ (ih _)

variable {call}

/-- Whatever one call keeps, several calls keep. -/
theorem after_induction {P : σ → Prop} (hcall : ∀ s c, P s → P (call s c).1) {s : σ} (hs : P s)
    (calls : List γ) : P (after call s calls) := by
  induction calls generalizing s with
  | nil => exact hs
  | cons c calls ih => exact ih (hcall s c hs)

/-- Answers come from calls, one by one. -/
theorem exists_calls_of_answers {s : σ} {calls : List γ} {c : γ} {y : ρ} {xs ys : List (γ × ρ)}
    (h : answers call s calls = xs ++ (c, y) :: ys) :
    ∃ cs ds, calls = cs ++ c :: ds ∧ (call (after call s cs) c).2 = y ∧
      answers call (call (after call s cs) c).1 ds = ys := by
  induction xs generalizing s calls with
  | nil =>
    cases calls with
    | nil => cases h
    | cons d ds =>
      obtain ⟨hd, hds⟩ := List.cons.inj h
      obtain ⟨rfl, hy⟩ := Prod.mk.inj hd
      exact ⟨[], ds, rfl, hy, hds⟩
  | cons x xs ih =>
    cases calls with
    | nil => cases h
    | cons d ds =>
      obtain ⟨-, hds⟩ := List.cons.inj h
      obtain ⟨cs, ds, rfl, hy, hys⟩ := ih hds
      exact ⟨d :: cs, ds, rfl, hy, hys⟩

end Brainfuck.Calls
