import Brainfuck.Proofs.Calls
import Brainfuck.Proofs.Tape

/-! Access to a tape by callers of any kind. Whatever values they give, a call that goes against the size or the bounds
fails and changes nothing, and a cell that is read holds what has last been written to it. -/
namespace Brainfuck.Tape

inductive Call where
  | read (index : Datum)
  | write (index value : Datum)
  | window (start stop : Int)

inductive Reply where
  | value (v : Int)
  | written
  | cells (vs : List Int)

def call (t : Tape) : Call → Tape × Except Fault Reply
  | .read index => (t, (t.read index).map .value)
  | .write index value =>
    match t.write index value with
    | .ok u => (u, .ok .written)
    | .error f => (t, .error f)
  | .window start stop => (t, .ok (.cells (t.window start stop)))

abbrev after (t : Tape) (calls : List Call) : Tape :=
  Calls.after call t calls

abbrev answers (t : Tape) (calls : List Call) : List (Call × Except Fault Reply) :=
  Calls.answers call t calls

def Call.index? : Call → Option Datum
  | read index => some index
  | write index _ => some index
  | window _ _ => none

def Names (t : Tape) (index : Datum) : Prop :=
  ∃ i : Int, index = .integer i ∧ 0 ≤ i ∧ i < t.size

def Fits (t : Tape) (value : Datum) : Prop :=
  ∃ v : Int, value = .integer v ∧ t.minimum ≤ v ∧ v ≤ t.maximum

inductive Goes (t : Tape) : Call → Tape × Except Fault Reply → Prop where
  | reads {i : Int} (hi : 0 ≤ i ∧ i < t.size) : Goes t (.read (.integer i)) (t, .ok (.value (t.cell i)))
  | writes {i v : Int} (hi : 0 ≤ i ∧ i < t.size) (hv : t.minimum ≤ v ∧ v ≤ t.maximum) :
      Goes t (.write (.integer i) (.integer v)) (t.set i.toNat v, .ok .written)
  | shows (start stop : Int) : Goes t (.window start stop) (t, .ok (.cells (t.window start stop)))
  | misses {c : Call} {index : Datum} {f : Fault} (hc : c.index? = some index) (hindex : ¬ t.Names index)
      (hf : f.kind = .indexOutOfBounds) : Goes t c (t, .error f)
  | refuses {index value : Datum} {f : Fault} (hindex : t.Names index) (hvalue : ¬ t.Fits value)
      (hf : f.kind = .valueOutOfRange) : Goes t (.write index value) (t, .error f)

variable {t u : Tape} {index value : Datum} {c : Call} {r : Tape × Except Fault Reply}
  {log : List (Call × Except Fault Reply)}

theorem cellIndex_of_not_names (h : ¬ t.Names index) :
    ∃ f, t.cellIndex index = .error f ∧ f.kind = .indexOutOfBounds := by
  cases index with
  | integer i =>
    have houtside : ¬ (0 ≤ i ∧ i < t.size) := fun hi => h ⟨i, rfl, hi⟩
    exact ⟨_, if_neg houtside, rfl⟩
  | _ => exact ⟨_, rfl, rfl⟩

theorem target_of_not_fits (hindex : t.Names index) (hvalue : ¬ t.Fits value) :
    ∃ f, t.target index value = .error f ∧ f.kind = .valueOutOfRange := by
  obtain ⟨i, rfl, hi, hs⟩ := hindex
  simp only [target, cellIndex_integer hi hs, bind, Except.bind]
  cases value with
  | integer v =>
    have houtside : ¬ (t.minimum ≤ v ∧ v ≤ t.maximum) := fun hv => hvalue ⟨v, rfl, hv⟩
    exact ⟨_, if_neg houtside, rfl⟩
  | _ => exact ⟨_, rfl, rfl⟩

theorem call_goes (t : Tape) (c : Call) : t.Goes c (t.call c) := by
  cases c with
  | read index =>
    by_cases hindex : t.Names index
    · obtain ⟨i, rfl, hi, hs⟩ := hindex
      rw [call, read_integer hi hs]
      exact .reads ⟨hi, hs⟩
    · obtain ⟨f, hcell, hf⟩ := cellIndex_of_not_names hindex
      simp only [call, Tape.read, hcell]
      exact .misses rfl hindex hf
  | write index value =>
    by_cases hindex : t.Names index
    · by_cases hvalue : t.Fits value
      · obtain ⟨i, rfl, hi, hs⟩ := hindex
        obtain ⟨v, rfl, hv⟩ := hvalue
        simp only [call, write, target_integer hi hs hv]
        exact .writes ⟨hi, hs⟩ hv
      · obtain ⟨f, htarget, hf⟩ := target_of_not_fits hindex hvalue
        simp only [call, write, htarget]
        exact .refuses hindex hvalue hf
    · obtain ⟨f, hcell, hf⟩ := cellIndex_of_not_names hindex
      simp only [call, write, target, hcell]
      exact .misses rfl hindex hf
  | window start stop => exact .shows start stop

def Raises (r : Tape × Except Fault Reply) (kind : Fault.Kind) : Prop :=
  ∃ f, r.2 = .error f ∧ f.kind = kind

theorem not_raises_ok (y : Reply) (kind : Fault.Kind) : ¬ Raises (t, .ok y) kind := by
  rintro ⟨f, hf, -⟩
  cases hf

theorem raises_error_iff {f : Fault} {kind : Fault.Kind} : Raises (t, .error f) kind ↔ f.kind = kind := by
  constructor
  · rintro ⟨g, hg, rfl⟩
    rw [Except.error.inj hg]
  · intro hf
    exact ⟨f, rfl, hf⟩

theorem Goes.raises_index_iff (h : t.Goes c r) (hc : c.index? = some index) :
    Raises r .indexOutOfBounds ↔ ¬ t.Names index := by
  cases h with
  | reads hi =>
    obtain rfl := Option.some.inj hc
    exact iff_of_false (not_raises_ok _ _) fun hindex => hindex ⟨_, rfl, hi⟩
  | writes hi hv =>
    obtain rfl := Option.some.inj hc
    exact iff_of_false (not_raises_ok _ _) fun hindex => hindex ⟨_, rfl, hi⟩
  | shows start stop => cases hc
  | misses hc' hindex hf =>
    obtain rfl := Option.some.inj (hc.symm.trans hc')
    exact iff_of_true (raises_error_iff.mpr hf) hindex
  | refuses hindex hvalue hf =>
    obtain rfl := Option.some.inj hc
    rw [raises_error_iff, hf]
    exact iff_of_false nofun fun hindex' => hindex' hindex

theorem Goes.raises_value_iff (h : t.Goes (.write index value) r) :
    Raises r .valueOutOfRange ↔ t.Names index ∧ ¬ t.Fits value := by
  cases h with
  | writes hi hv => exact iff_of_false (not_raises_ok _ _) fun hvalue => hvalue.2 ⟨_, rfl, hv⟩
  | misses hc hindex hf =>
    obtain rfl := Option.some.inj hc
    rw [raises_error_iff, hf]
    exact iff_of_false nofun fun hvalue => hindex hvalue.1
  | refuses hindex hvalue hf => exact iff_of_true (raises_error_iff.mpr hf) ⟨hindex, hvalue⟩

theorem Goes.read_eq {i : Int} (h : t.Goes (.read (.integer i)) r) (hindex : t.Names (.integer i)) :
    r = (t, .ok (.value (t.cell i))) := by
  cases h with
  | reads hi => rfl
  | misses hc hindex' hf =>
    obtain rfl := Option.some.inj hc
    exact absurd hindex hindex'

theorem Goes.write_answer (h : t.Goes (.write index value) r) (hindex : t.Names index) (hvalue : t.Fits value) :
    r.2 = .ok .written := by
  cases h with
  | writes hi hv => rfl
  | misses hc hindex' hf =>
    obtain rfl := Option.some.inj hc
    exact absurd hindex hindex'
  | refuses hindex' hvalue' hf => exact absurd hvalue hvalue'

theorem Goes.unchanged {f : Fault} (h : t.Goes c r) (hf : r.2 = .error f) : r.1 = t := by
  cases h with
  | writes hi hv => cases hf
  | _ => rfl

/-- What a call that has been answered has written to a cell. -/
def written? (p : Int) : Call × Except Fault Reply → Option Int
  | (.write (.integer i) (.integer v), .ok _) => if i = p then some v else none
  | _ => none

/-- What has last been written to a cell. -/
def latest (p : Int) (log : List (Call × Except Fault Reply)) : Option Int :=
  log.reverse.findSome? (written? p)

theorem latest_snoc (p : Int) (log : List (Call × Except Fault Reply)) (x : Call × Except Fault Reply) :
    latest p (log ++ [x]) = (written? p x).or (latest p log) := by
  rw [latest, List.reverse_append, List.reverse_singleton, List.singleton_append, List.findSome?_cons, latest]
  cases written? p x <;> rfl

theorem written?_error (p : Int) (c : Call) (f : Fault) : written? p (c, .error f) = none := by
  unfold written?
  split
  · next h => cases (Prod.mk.inj h).2
  · rfl

/-- Behind calls that have been answered, a tape is of the same size and bounds, and holds in each cell what has last
been written to it, or its default. -/
structure Kept (t u : Tape) (log : List (Call × Except Fault Reply)) : Prop where
  size : u.size = t.size
  minimum : u.minimum = t.minimum
  maximum : u.maximum = t.maximum
  default : u.default = t.default
  valid : u.Valid
  cell : ∀ p : Int, 0 ≤ p → p < t.size → u.cell p = (latest p log).getD t.default

theorem kept_of_blank {layout : Layout} {room : Room} (h : blank layout room = .ok t) : Kept t t [] := by
  refine ⟨rfl, rfl, rfl, rfl, blank_valid h, ?_⟩
  intro p hp hs
  obtain ⟨size, minimum, maximum, default, -, -, -, rfl⟩ := blank_ok h
  have hplace : p.toNat < size.toNat := by
    simp only [Tape.size, Array.size_replicate] at hs
    omega
  simp only [Tape.cell, Array.getElem?_replicate, hplace, if_true]
  rfl

theorem Kept.idle {x : Call × Except Fault Reply} (h : Kept t u log) (hx : ∀ p, written? p x = none) :
    Kept t u (log ++ [x]) := by
  refine ⟨h.size, h.minimum, h.maximum, h.default, h.valid, ?_⟩
  intro p hp hs
  rw [latest_snoc, hx, Option.none_or]
  exact h.cell p hp hs

theorem Kept.written {i v : Int} (h : Kept t u log) (hi : 0 ≤ i ∧ i < u.size) (hv : u.minimum ≤ v ∧ v ≤ u.maximum) :
    Kept t (u.set i.toNat v) (log ++ [(.write (.integer i) (.integer v), .ok .written)]) := by
  refine ⟨?_, h.minimum, h.maximum, h.default, h.valid.set _ hv, ?_⟩
  · rw [set_size, h.size]
  · intro p hp hs
    rw [latest_snoc]
    by_cases hip : i = p
    · subst hip
      rw [cell_set hi.1 hi.2, written?, if_pos rfl]
      rfl
    · rw [cell_set_ne hi.1 hp (Ne.symm hip), written?, if_neg hip, Option.none_or]
      exact h.cell p hp hs

theorem Kept.goes (h : Kept t u log) (hr : u.Goes c r) : Kept t r.1 (log ++ [(c, r.2)]) := by
  cases hr with
  | reads hi => exact h.idle fun _ => rfl
  | writes hi hv => exact h.written hi hv
  | shows start stop => exact h.idle fun _ => rfl
  | misses hc hindex hf => exact h.idle fun p => written?_error p _ _
  | refuses hindex hvalue hf => exact h.idle fun p => written?_error p _ _

theorem Kept.after (h : Kept t u log) (calls : List Call) : Kept t (u.after calls) (log ++ u.answers calls) := by
  -- the log grows at its end, so that what has been answered before stays in front
  induction calls generalizing u log with
  | nil =>
    rw [Tape.answers, Calls.answers, List.append_nil]
    exact h
  | cons c calls ih =>
    have hrest := ih (h.goes (u.call_goes c))
    rwa [List.append_assoc, List.singleton_append] at hrest

/-- What callers can rely on behind calls that have been answered, if `t` is the tape as it was made. -/
structure Checked (t u : Tape) (log : List (Call × Except Fault Reply)) : Prop where
  size : u.size = t.size
  minimum : u.minimum = t.minimum
  maximum : u.maximum = t.maximum
  default : u.default = t.default
  between : ∀ v ∈ u.cells, t.minimum ≤ v ∧ v ≤ t.maximum
  index : ∀ c index, c.index? = some index → (Raises (u.call c) .indexOutOfBounds ↔ ¬ t.Names index)
  value : ∀ index value,
    Raises (u.call (.write index value)) .valueOutOfRange ↔ t.Names index ∧ ¬ t.Fits value
  unchanged : ∀ c f, (u.call c).2 = .error f → (u.call c).1 = u
  reads : ∀ i : Int, t.Names (.integer i) →
    u.call (.read (.integer i)) = (u, .ok (.value ((latest i log).getD t.default)))
  writes : ∀ index value, t.Names index → t.Fits value → (u.call (.write index value)).2 = .ok .written

theorem Kept.names_iff (h : Kept t u log) (index : Datum) : u.Names index ↔ t.Names index := by
  rw [Names, Names, h.size]

theorem Kept.fits_iff (h : Kept t u log) (value : Datum) : u.Fits value ↔ t.Fits value := by
  rw [Fits, Fits, h.minimum, h.maximum]

theorem Kept.checked (h : Kept t u log) : Checked t u log where
  size := h.size
  minimum := h.minimum
  maximum := h.maximum
  default := h.default
  between := by
    rw [← h.minimum, ← h.maximum]
    exact h.valid.cell_mem
  index := by
    intro c index hc
    rw [(u.call_goes c).raises_index_iff hc, h.names_iff]
  value := by
    intro index value
    rw [(u.call_goes _).raises_value_iff, h.names_iff, h.fits_iff]
  unchanged := by
    intro c f hf
    exact (u.call_goes c).unchanged hf
  reads := by
    intro i hi
    rw [(u.call_goes _).read_eq ((h.names_iff _).mpr hi)]
    obtain ⟨_, hi, hnonneg, hlt⟩ := hi
    cases hi
    rw [h.cell i hnonneg hlt]
  writes := by
    intro index value hindex hvalue
    exact (u.call_goes _).write_answer ((h.names_iff index).mpr hindex) ((h.fits_iff value).mpr hvalue)

/-- Two cells, each of which holds a number from -1 to 5. -/
def pairLayout : Layout where
  size := .ok 2
  minimum := .ok (-1)
  maximum := .ok 5

/-- A write to the second cell, and calls that look like writes to it. -/
def mixedCalls : List Call :=
  [.write (.integer 1) (.integer 5), .write (.truth true) (.integer 3), .write (.integer 1) (.real "2.5"),
    .window 0 (-1), .write (.integer (-1)) (.integer 4)]

end Brainfuck.Tape
