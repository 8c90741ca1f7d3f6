import Brainfuck.Proofs.Safety
import Brainfuck.Proofs.Sifting

/-! Delivery. Reads deliver the values of an input that fit, one after the other, and then the value at its end. The
values that do not fit make no difference to anything that a machine shows. -/
namespace Brainfuck

def Tape.fitting (t : Tape) (xs : List Int) : List Int :=
  xs.filter fun x => t.minimum ≤ x ∧ x ≤ t.maximum

theorem Tape.fitting_fitting (t : Tape) (xs : List Int) : t.fitting (t.fitting xs) = t.fitting xs := by
  simp [fitting]

namespace Input
variable {lo hi : Int} {input : Input} {xs : List Int} {eof : Option Int}

/-- What an input has left to deliver between two bounds: some values, and then one again and again or, without it,
nothing. -/
structure Offers (lo hi : Int) (input : Input) (xs : List Int) (eof : Option Int) : Prop where
  sift : input.sift lo hi = .ofValues (xs.map .integer) (eof.map .integer)
  within : ∀ x ∈ xs, lo ≤ x ∧ x ≤ hi
  eof_within : ∀ x, eof = some x → lo ≤ x ∧ x ≤ hi

def nextOf (xs : List Int) (eof : Option Int) : Except Stop Int :=
  (xs.head?.or eof).elim (.error (.fault .inputExhausted)) .ok

theorem nextOf_drop (xs : List Int) (eof : Option Int) (k : Nat) :
    nextOf (xs.drop k) eof = (xs[k]?.or eof).elim (.error (.fault .inputExhausted)) .ok := by
  rw [nextOf, List.head?_drop]

theorem integral_ofValues (xs : List Int) (eof : Option Int) :
    (ofValues (xs.map .integer) (eof.map .integer)).Integral := by
  constructor
  · intro v hv
    obtain ⟨x, -, rfl⟩ := List.mem_map.mp hv
    exact ⟨x, rfl⟩
  · intro v hv
    cases eof with
    | none => cases hv
    | some x => exact ⟨x, (Ending.repeats.inj hv).symm⟩

theorem sift_ofValues (t : Tape) (xs : List Int) (eof : Option Int) :
    (ofValues (xs.map .integer) (eof.map .integer)).sift t.minimum t.maximum =
      ofValues ((t.fitting xs).map .integer) (eof.map .integer) := by
  have hfits : ((fun v : Datum => v.between? t.minimum t.maximum != some false) ∘ Datum.integer) =
      fun x => decide (t.minimum ≤ x ∧ x ≤ t.maximum) := by
    funext x
    rw [Function.comp_apply, between?_integer]
    cases decide (t.minimum ≤ x ∧ x ≤ t.maximum) <;> rfl
  simp only [sift, ofValues, Tape.fitting, List.filter_map, hfits]

theorem offers_ofValues {t : Tape} (xs : List Int) (heof : ∀ x, eof = some x → t.minimum ≤ x ∧ x ≤ t.maximum) :
    Offers t.minimum t.maximum (ofValues (xs.map .integer) (eof.map .integer)) (t.fitting xs) eof := by
  constructor
  · exact sift_ofValues t xs eof
  · intro x hx
    simpa using (List.mem_filter.mp hx).2
  · exact heof

theorem between?_within {x : Int} (hx : lo ≤ x ∧ x ≤ hi) : (Datum.integer x).between? lo hi = some true := by
  rw [between?_integer, decide_eq_true hx]

theorem readWithin_ofValues (hxs : ∀ x ∈ xs, lo ≤ x ∧ x ≤ hi) (heof : ∀ x, eof = some x → lo ≤ x ∧ x ≤ hi) :
    (ofValues (xs.map .integer) (eof.map .integer)).readWithin lo hi =
      ⟨(nextOf xs eof).map .integer, ofValues (xs.tail.map .integer) (eof.map .integer), []⟩ := by
  cases xs with
  | cons x xs =>
    have hx := between?_within (hxs x List.mem_cons_self)
    simp only [Input.readWithin, ofValues, List.map_cons, seek, hx]
    rfl
  | nil =>
    cases eof with
    | none => rfl
    | some x =>
      have hx := between?_within (heof x rfl)
      simp only [Input.readWithin, ofValues, List.map_nil, Option.map_some, Option.elim_some, seek, Ending.value, hx]
      rfl

/-- A search finds the next value, and leaves those behind it. -/
theorem Offers.readWithin (h : Offers lo hi input xs eof) :
    (input.readWithin lo hi).outcome = (nextOf xs eof).map .integer ∧
      Offers lo hi (input.readWithin lo hi).rest xs.tail eof := by
  have hsift := readWithin_sift lo hi input
  rw [h.sift, readWithin_ofValues h.within h.eof_within] at hsift
  injection hsift with houtcome hrest
  exact ⟨houtcome.symm, hrest.symm, fun x hx => h.within x (List.mem_of_mem_tail hx), h.eof_within⟩

theorem Offers.search_eq (h : Offers lo hi input xs eof) (hinput : input.Integral) :
    (input.search lo hi).1 = nextOf xs eof := by
  obtain ⟨houtcome, -⟩ := h.readWithin
  obtain ⟨hsearch, -⟩ := readWithin_eq_search hinput lo hi
  rw [houtcome] at hsearch
  generalize (input.search lo hi).1 = found at hsearch
  cases hnext : nextOf xs eof with
  | error e =>
    rw [hnext] at hsearch
    cases found with
    | error e' => exact congrArg Except.error (Except.error.inj hsearch).symm
    | ok x => cases hsearch
  | ok x =>
    rw [hnext] at hsearch
    cases found with
    | error e => cases hsearch
    | ok x' => exact congrArg Except.ok (Datum.integer.inj (Except.ok.inj hsearch)).symm

end Input

namespace Machine
variable {m m' : Machine} {xs : List Int} {eof : Option Int} {n : Nat} {c : Instruction}

def Offers (m : Machine) (xs : List Int) (eof : Option Int) : Prop :=
  m.input.Offers m.tape.minimum m.tape.maximum xs eof

/-- How many of the first cycles read a value. -/
def reads : Nat → Machine → Nat
  | 0, _ => 0
  | n + 1, m =>
    match m.cycle with
    | (m, .ok c) => (if c = .read then 1 else 0) + reads n m
    | (_, .error _) => 0

/-- Every read that is carried out uses up one value that fits. -/
theorem Offers.cycle (h : m.Offers xs eof) (hc : m.cycle = (m', .ok c)) :
    m'.Offers (xs.drop (if c = .read then 1 else 0)) eof := by
  have hsettings := SameSettings.of_cycle hc
  obtain ⟨-, -, m₁, hp, rfl⟩ := exists_perform_of_cycle_ok hc
  have hinput : m₁.advance.input = (m.perform c).1.input := by
    rw [hp]
    rfl
  unfold Offers
  rw [hsettings.minimum, hsettings.maximum, hinput]
  by_cases hread : c = .read
  · subst hread
    obtain ⟨tape, hreceive⟩ := m.receive_footprint
    have hrest : (m.perform .read).1.input = (m.input.readWithin m.tape.minimum m.tape.maximum).rest := by
      rw [perform, hreceive]
    rw [if_pos rfl, List.drop_one, hrest]
    exact h.readWithin.2
  · rw [if_neg hread, List.drop_zero, (m.perform_footprint c).input hread]
    exact h

theorem Offers.after (h : m.Offers xs eof) (hn : m.after n = some m') : m'.Offers (xs.drop (m.reads n)) eof := by
  induction n generalizing m xs with
  | zero =>
    obtain rfl := Option.some.inj hn
    exact h
  | succ n ih =>
    obtain ⟨m₁, c, hc, hn⟩ := exists_cycle_of_after_succ hn
    have hrest := ih (h.cycle hc) hn
    rw [List.drop_drop] at hrest
    simpa only [reads, hc] using hrest

/-- What is read and stored in the current cell. -/
structure Stores (m m' : Machine) (v : Int) : Prop where
  tape : m'.tape = m.tape.set m.dataPointer.toNat v
  current : m'.current = .ok v

/-- A read stores what a search finds. -/
theorem cycle_read_of_search (hv : m.workspace.Valid) (hl : m.limitReached = false)
    (hc : m.program.instructionAt (.integer m.instructionPointer) = .ok .read) {v : Int} {rest : Input}
    (hfound : m.workspace.input.search m.workspace.tape.minimum m.workspace.tape.maximum = (.ok v, rest)) :
    ∃ m', m.cycle = (m', .ok .read) ∧ m.Stores m' v := by
  have hreceive : Action.perform m.workspace .read = ({ m.workspace.put v with input := rest }, .ok ()) := by
    simp only [Action.perform, Workspace.receive, hfound]
  obtain ⟨m', hcycle, hworkspace, -⟩ := cycle_action_ok (a := .read) hv hl hc hreceive
  have htape : m'.tape = m.tape.set m.dataPointer.toNat v := congrArg Workspace.tape hworkspace
  have hpointer : m'.dataPointer = m.dataPointer := congrArg Workspace.pointer hworkspace
  have hsize : m.dataPointer < (m.tape.set m.dataPointer.toNat v).size := by
    rw [Tape.set_size]
    exact hv.pointer_lt
  have hread : (m.tape.set m.dataPointer.toNat v).read (.integer m.dataPointer) = .ok _ :=
    Tape.read_integer hv.pointer_nonneg hsize
  have hcell : (m.tape.set m.dataPointer.toNat v).cell m.dataPointer = v :=
    Tape.cell_set hv.pointer_nonneg hv.pointer_lt v
  refine ⟨m', hcycle, htape, ?_⟩
  rw [current, htape, hpointer, hread, hcell]

section Read
variable (hv : m.workspace.Valid) (h : m.Offers xs eof) (hl : m.limitReached = false)
  (hc : m.program.instructionAt (.integer m.instructionPointer) = .ok .read)
include hv h

theorem Offers.exists_search :
    ∃ rest, m.workspace.input.search m.workspace.tape.minimum m.workspace.tape.maximum =
      (Input.nextOf xs eof, rest) :=
  ⟨_, Prod.ext (Input.Offers.search_eq h hv.input) rfl⟩

include hl hc

theorem Offers.cycle_read_ok {v : Int} (hnext : Input.nextOf xs eof = .ok v) :
    ∃ m', m.cycle = (m', .ok .read) ∧ m.Stores m' v := by
  obtain ⟨rest, hfound⟩ := h.exists_search hv
  rw [hnext] at hfound
  exact cycle_read_of_search hv hl hc hfound

theorem Offers.cycle_read_error {e : Stop} (hnext : Input.nextOf xs eof = .error e) :
    m.cycle.2 = .error e := by
  obtain ⟨rest, hfound⟩ := h.exists_search hv
  rw [hnext] at hfound
  have hreceive : Action.perform m.workspace .read = ({ m.workspace with input := rest }, .error e) := by
    simp only [Action.perform, Workspace.receive, hfound]
  obtain ⟨m', hcycle, -⟩ := cycle_action_error (a := .read) hv hl hc hreceive
  rw [hcycle]

end Read

/-- Behind `n` cycles a machine is about to read. -/
structure AtRead (m : Machine) (n : Nat) (m₁ : Machine) : Prop where
  after : m.after n = some m₁
  unlimited : m₁.limitReached = false
  instruction : m₁.program.instructionAt (.integer m₁.instructionPointer) = .ok .read

/-- The reads of a machine deliver the values `xs`, one after the other, and then `eof` again and again. Without it
they fail behind the last value. -/
structure Delivers (m : Machine) (xs : List Int) (eof : Option Int) : Prop where
  stored : ∀ n m₁ m₂, m.after n = some m₁ → m₁.cycle = (m₂, .ok .read) →
    ∃ v, xs[m.reads n]?.or eof = some v ∧ m₁.Stores m₂ v
  served : ∀ n m₁ v, m.AtRead n m₁ → xs[m.reads n]?.or eof = some v →
    ∃ m₂, m₁.cycle = (m₂, .ok .read) ∧ m₁.Stores m₂ v
  exhausted : ∀ n m₁, m.AtRead n m₁ → xs[m.reads n]?.or eof = none →
    m₁.cycle.2 = .error (.fault .inputExhausted)

section Delivers
variable {m₁ m₂ : Machine} (hs : m.Safe) (hv : m.program.validate = .ok ()) (h : m.Offers xs eof)

include hs hv h

theorem AtRead.served {v : Int} (hr : m.AtRead n m₁) (hvalue : xs[m.reads n]?.or eof = some v) :
    ∃ m₂, m₁.cycle = (m₂, .ok .read) ∧ m₁.Stores m₂ v := by
  have hvalid := (hs.after hv hr.after).workspace
  have hnext : Input.nextOf (xs.drop (m.reads n)) eof = .ok v := by
    rw [Input.nextOf_drop, hvalue]
    rfl
  exact (h.after hr.after).cycle_read_ok hvalid hr.unlimited hr.instruction hnext

theorem AtRead.exhausted (hr : m.AtRead n m₁) (hvalue : xs[m.reads n]?.or eof = none) :
    m₁.cycle.2 = .error (.fault .inputExhausted) := by
  have hvalid := (hs.after hv hr.after).workspace
  have hnext : Input.nextOf (xs.drop (m.reads n)) eof = .error (.fault .inputExhausted) := by
    rw [Input.nextOf_drop, hvalue]
    rfl
  exact (h.after hr.after).cycle_read_error hvalid hr.unlimited hr.instruction hnext

theorem Safe.delivers : m.Delivers xs eof := by
  constructor
  · intro n m₁ m₂ hn hcycle
    obtain ⟨hl, hc, -⟩ := exists_perform_of_cycle_ok hcycle
    have hr : m.AtRead n m₁ := ⟨hn, hl, hc⟩
    -- without a value the read would not have been carried out
    cases hvalue : xs[m.reads n]?.or eof with
    | none =>
      have hfails := hr.exhausted hs hv h hvalue
      rw [hcycle] at hfails
      cases hfails
    | some v =>
      obtain ⟨m₃, hcycle', hstores⟩ := hr.served hs hv h hvalue
      obtain ⟨rfl, -⟩ := Prod.mk.inj (hcycle.symm.trans hcycle')
      exact ⟨v, rfl, hstores⟩
  · intro n m₁ v hr hvalue
    exact hr.served hs hv h hvalue
  · intro n m₁ hr hvalue
    exact hr.exhausted hs hv h hvalue

end Delivers

/-- Two machines that nobody can tell apart. They go through the same states but for what is left of their inputs,
and have the same answers, however runs and steps take turns at them. -/
structure Indistinguishable (m m' : Machine) : Prop where
  after : ∀ n, (m.after n).map unfed = (m'.after n).map unfed
  answers : ∀ calls, Pool.answers ⟨m, []⟩ calls = Pool.answers ⟨m', []⟩ calls
  machine : ∀ calls, (Pool.after ⟨m, []⟩ calls).machine.unfed = (Pool.after ⟨m', []⟩ calls).machine.unfed

theorem indistinguishable_of_sifted (h : m.sifted = m'.sifted) : m.Indistinguishable m' := by
  have hpools : Pool.Same ⟨m, []⟩ ⟨m', []⟩ := ⟨h, rfl⟩
  constructor
  · intro n
    have hafter := congrArg (Option.map unfed) (after_course h n)
    rw [Option.map_map, Option.map_map] at hafter
    exact hafter
  · intro calls
    exact (hpools.calls calls).2
  · intro calls
    exact unfed_course (hpools.calls calls).1.machine

section Start
variable {program : Program} {tape : Tape} {sink : Sink} {limit : Option Int}

/-- Whether a machine can start does not depend on its input. -/
theorem start_refed {input : Input} (h : start program tape input sink limit = .ok m) (input' : Input) :
    start program tape input' sink limit = .ok (m.refed input' m.journal) := by
  obtain ⟨rfl, hlimit⟩ := start_ok h
  unfold start
  cases limit with
  | none => rfl
  | some n =>
    have hn : ¬ n < 0 := Int.not_lt.mpr (hlimit n rfl)
    dsimp only
    rw [if_neg hn]
    rfl

variable (hm : start program tape (.ofValues (xs.map .integer) (eof.map .integer)) sink limit = .ok m)
include hm

theorem sifted_of_start :
    (m.refed (.ofValues ((tape.fitting xs).map .integer) (eof.map .integer)) m.journal).sifted = m.sifted := by
  obtain ⟨rfl, -⟩ := start_ok hm
  simp only [sifted, refed, Input.sift_ofValues, Tape.fitting_fitting]

theorem delivers_of_start (hv : program.validate = .ok ()) (ht : tape.Made)
    (heof : ∀ x, eof = some x → tape.minimum ≤ x ∧ x ≤ tape.maximum) : m.Delivers (tape.fitting xs) eof := by
  have hsafe := Safe.of_start ht.valid (Input.integral_ofValues xs eof) hm
  obtain ⟨rfl, -⟩ := start_ok hm
  exact hsafe.delivers hv (Input.offers_ofValues xs heof)

end Start

/-- Values that do not fit into a cell are invisible. A machine that finds them in its input cannot be told from one
that does not, and the reads of both deliver the values that do fit. -/
theorem out_of_range_input_is_invisible {program : Program} {tape : Tape} {sink : Sink} {limit : Option Int}
    {xs : List Int} {eof : Option Int} (hv : program.validate = .ok ()) (ht : tape.Made)
    (heof : ∀ x, eof = some x → tape.minimum ≤ x ∧ x ≤ tape.maximum)
    (hm : start program tape (.ofValues (xs.map .integer) (eof.map .integer)) sink limit = .ok m) :
    ∃ m', start program tape (.ofValues ((tape.fitting xs).map .integer) (eof.map .integer)) sink limit = .ok m' ∧
      m.Indistinguishable m' ∧ m.Delivers (tape.fitting xs) eof ∧ m'.Delivers (tape.fitting xs) eof := by
  have hm' := start_refed hm (.ofValues ((tape.fitting xs).map .integer) (eof.map .integer))
  have hsifted := sifted_of_start hm
  have hdelivers' := delivers_of_start hm' hv ht heof
  rw [Tape.fitting_fitting] at hdelivers'
  exact ⟨_, hm', indistinguishable_of_sifted hsifted.symm, delivers_of_start hm hv ht heof, hdelivers'⟩

def oneByte : Tape :=
  ⟨0, 255, 0, #[0]⟩

/-- Of three values only one fits, and the second read finds none. -/
theorem out_of_range_input_is_invisible_around_one :
    (Program.ofSource ",.,").validate = .ok () ∧ oneByte.Made ∧ oneByte.fitting [300, 65, -1] = [65] ∧
      ∃ m m', start (.ofSource ",.,") oneByte (.ofValues ([300, 65, -1].map .integer) none) (.empty .buffer) none =
          .ok m ∧
        start (.ofSource ",.,") oneByte (.ofValues ([65].map .integer) none) (.empty .buffer) none = .ok m' ∧
          m.Indistinguishable m' ∧ m.Delivers [65] none ∧ (m.run 9).2 = .error (.fault .inputExhausted) := by
  have hv : (Program.ofSource ",.,").validate = .ok () := rfl
  have hblank : Tape.blank { size := .ok 1 } = .ok oneByte := rfl
  have ht : oneByte.Made := .blank hblank
  have heof : ∀ x, (none : Option Int) = some x → oneByte.minimum ≤ x ∧ x ≤ oneByte.maximum := by
    intro x hx
    cases hx
  obtain ⟨m', hm', hsame, hdelivers, -⟩ :=
    out_of_range_input_is_invisible hv ht heof
      (rfl : start _ _ (.ofValues ([300, 65, -1].map .integer) none) (.empty .buffer) none = .ok _)
  exact ⟨hv, ht, rfl, _, m', rfl, hm', hsame, hdelivers, rfl⟩

end Machine
end Brainfuck
