import Mathlib.Data.ENat.Basic
import Brainfuck.Proofs.LockStep
import Brainfuck.Proofs.Safety

/-! Step limits. A limit either makes no difference to a run or cuts it off behind exactly as many
instructions, and then the run can be taken up again as if it had been given more from the start. -/
namespace Brainfuck.Machine

def withLimit (m : Machine) (limit : Option Int) : Machine :=
  { m with maxSteps := limit }

/-- A run completes `N` instructions before it comes to its end, or as many as one likes if it never does. -/
def Completes (m : Machine) (N : ℕ∞) : Prop :=
  ∀ k : ℕ, k ≤ N ↔ ∃ m', m.after k = some m'

def Halts (m : Machine) : Prop :=
  ∃ fuel, (m.run fuel).2 = .ok ()

/-- A limit leaves room for one more instruction than a run completes, or for exactly these if it halts. -/
def Suffices (m : Machine) (N : ℕ∞) (limit : ℕ) : Prop :=
  N < limit ∨ N = limit ∧ m.Halts

/-- How a limit cuts off a run of `m` at a machine `x`: this is where the run without a limit is behind as many
instructions. With a limit that is no lower, or none, a run from there comes to the same end as one of `m`. -/
structure CutsOff (m : Machine) (limit : ℕ) (x : Machine) : Prop where
  after : m.entered.after limit = some x
  steps : x.steps = limit
  raises : ∀ fuel, limit < fuel →
    (m.withLimit (some limit)).run fuel = (x.withLimit (some limit), .error (.fault .stepLimit))
  resumes : ∀ limit' : Option Int, (∀ n, limit' = some n → limit ≤ n) → ∀ r t, r ≠ .error .unfinished →
    ((∃ fuel m', ((x.withLimit (some limit)).withLimit limit').run fuel = (m', r) ∧ m'.bare = t) ↔
      ∃ fuel m', (m.withLimit limit').run fuel = (m', r) ∧ m'.bare = t)

/-- A limit is a guise. -/
theorem withLimit_eq_inGuise (m : Machine) (limit : Option Int) :
    m.withLimit limit = m.inGuise { limit := fun _ => limit } := by
  simp [withLimit, inGuise]

variable {m m' x : Machine} {n fuel limit : ℕ} {r : Except Stop Unit}

/-- A limit is not noticed as long as it is above the steps. -/
theorem unnoticed_of_lt {limit : Option Int} (h0 : m.steps = 0) (hm : m.maxSteps = none)
    (h : ∀ k x, k < n → m.after k = some x → x.halted = false → ∀ l, limit = some l → (k : Int) < l) :
    Guise.Unnoticed { limit := fun _ => limit } m n := by
  intro k x hk hx hhalted
  have hsteps := after_steps hx
  have hnone : x.maxSteps = none := (after_sameSettings hx).maxSteps.trans hm
  cases limit with
  | none => simp [limitReached, inGuise, hnone]
  | some l =>
    have hlt := h k x hk hx hhalted l rfl
    have hle : ¬ l ≤ x.steps := by omega
    simpa [limitReached, inGuise, hnone] using hle

theorem Ends.completes (h : m.Ends n m' r) : m.Completes n := by
  intro k
  rw [Nat.cast_le]
  constructor
  · intro hk
    cases h with
    | halts hn _ => exact exists_after_of_le hn hk
    | fails hn _ _ => exact exists_after_of_le hn hk
  · rintro ⟨x, hx⟩
    exact h.le_of_after hx

theorem exists_completes (m : Machine) : ∃ N, m.Completes N := by
  obtain ⟨n, m', r, h⟩ | hforever := m.exists_ends_or_after
  · exact ⟨n, h.completes⟩
  · refine ⟨⊤, ?_⟩
    intro k
    exact ⟨fun _ => hforever k, fun _ => le_top⟩

/-- A run starts with a note in the journal. -/
theorem exists_entered_after (hx : m.after n = some x) :
    ∃ y, m.entered.after n = some y ∧ y.bare = x.bare := by
  obtain ⟨y, hy, hbare⟩ := after_bare (m.record_bare _).symm hx
  exact ⟨y, hy, hbare.symm⟩

theorem exists_after_entered (hx : m.entered.after n = some x) :
    ∃ y, m.after n = some y ∧ y.bare = x.bare := by
  obtain ⟨y, hy, hbare⟩ := after_bare (m.record_bare _) hx
  exact ⟨y, hy, hbare.symm⟩

theorem halts_iff_ends (hv : m.program.validate = .ok ()) :
    m.Halts ↔ ∃ n m', m.Ends n m' (.ok ()) := by
  constructor
  · rintro ⟨fuel, hrun⟩
    have hresult : m.run fuel = ((m.run fuel).1, .ok ()) := Prod.ext rfl hrun
    obtain ⟨n, m', hn, -⟩ := ends_of_run hv hresult (by simp)
    exact ⟨n, m', hn⟩
  · rintro ⟨n, m', hn⟩
    obtain ⟨m₁, hrun, -⟩ := run_of_ends hv hn
    exact ⟨n + 1, congrArg Prod.snd hrun⟩

section Limit
variable (hv : m.program.validate = .ok ()) (h0 : m.steps = 0) (hm : m.maxSteps = none) {N : ℕ∞}
  (hN : m.Completes N)
include hv hN

/-- Where a limit suffices, each instruction of a run stands below it. -/
theorem Suffices.lt (h : m.Suffices N limit) (hx : m.after n = some x) (hhalted : x.halted = false) :
    n < limit := by
  have hle : (n : ℕ∞) ≤ N := (hN n).mpr ⟨x, hx⟩
  obtain hlt | ⟨rfl, hhalts⟩ := h
  · exact_mod_cast hle.trans_lt hlt
  · obtain ⟨k, m', hend⟩ := (halts_iff_ends hv).mp hhalts
    have hle : n ≤ limit := by exact_mod_cast hle
    obtain rfl | hlt := hle.eq_or_lt
    · -- the run has come to its end there, so that there is no instruction
      have hkn : k = n := by
        have hk : k ≤ n := by
          cases hend with
          | halts hk _ => exact_mod_cast (hN k).mpr ⟨_, hk⟩
        exact Nat.le_antisymm hk (hend.le_of_after hx)
      subst hkn
      cases hend with
      | halts hk hm =>
        obtain rfl := Option.some.inj (hx.symm.trans hk)
        rw [hhalted] at hm
        cases hm
    · exact hlt

/-- Where a limit does not suffice, a run gets as far as the limit and has not halted there. -/
theorem exists_after_of_not_suffices (h : ¬ m.Suffices N limit) :
    ∃ x, m.after limit = some x ∧ x.halted = false := by
  have hle : (limit : ℕ∞) ≤ N := by
    by_contra hlt
    exact h (Or.inl (not_le.mp hlt))
  obtain ⟨x, hx⟩ := (hN limit).mp hle
  refine ⟨x, hx, ?_⟩
  cases hhalted : x.halted with
  | false => rfl
  | true =>
    have hend : m.Ends limit x (.ok ()) := .halts hx hhalted
    have hge : N ≤ limit := by
      by_contra hlt
      obtain ⟨y, hy⟩ := (hN (limit + 1)).mp (by exact_mod_cast Order.add_one_le_of_lt (not_le.mp hlt))
      rw [hend.after_eq_none] at hy
      cases hy
    exact absurd (Or.inr ⟨le_antisymm hge hle, (halts_iff_ends hv).mpr ⟨_, _, hend⟩⟩) h

include h0 hm

/-- A limit that suffices makes no difference. -/
theorem Suffices.run_eq (h : m.Suffices N limit) (fuel : ℕ) :
    (m.withLimit (some limit)).run fuel =
      ((m.run fuel).1.withLimit (some limit), (m.run fuel).2) := by
  have hunnoticed : Guise.Unnoticed { limit := fun _ => some (limit : Int) } m.entered fuel := by
    refine unnoticed_of_lt (m := m.entered) h0 hm ?_
    rintro k x - hx hhalted l ⟨⟩
    obtain ⟨y, hy, hbare⟩ := exists_after_entered hx
    have hlt := h.lt hv hN hy (by rw [halted_bare hbare, hhalted])
    exact_mod_cast hlt
  rw [withLimit_eq_inGuise, withLimit_eq_inGuise]
  exact run_inGuise hunnoticed

/-- A limit that does not suffice cuts off the run. -/
theorem exists_cutsOff (h : ¬ m.Suffices N limit) : ∃ x, m.CutsOff limit x := by
  obtain ⟨y, hy, hhalted⟩ := exists_after_of_not_suffices hv hN h
  obtain ⟨x, hx, hbare⟩ := exists_entered_after hy
  have hsteps : x.steps = limit := by
    have hsum := after_steps hx
    have hzero : m.entered.steps = 0 := h0
    omega
  -- limits that are no lower are not noticed before
  have hafter : ∀ limit' : Option Int, (∀ n, limit' = some n → limit ≤ n) →
      (m.entered.withLimit limit').after limit = some (x.withLimit limit') := by
    intro limit' hlimit'
    rw [withLimit_eq_inGuise, withLimit_eq_inGuise]
    refine after_inGuise (unnoticed_of_lt (m := m.entered) h0 hm ?_) hx
    intro k z hk _ _ l hl
    have hle := hlimit' l hl
    omega
  refine ⟨x, hx, hsteps, ?_, ?_⟩
  · intro fuel hfuel
    obtain ⟨k, rfl⟩ : ∃ k, fuel = limit + (k + 1) := ⟨fuel - limit - 1, by omega⟩
    have hhalted' : (x.withLimit (some limit)).halted = false := by
      have hsame : (x.withLimit (some limit)).halted = x.halted := rfl
      rw [hsame, halted_bare hbare, hhalted]
    have hreached : (x.withLimit (some limit)).limitReached = true := by
      simp [limitReached, withLimit, hsteps]
    have hentered : (m.withLimit (some limit)).entered = m.entered.withLimit (some limit) := rfl
    have hlimited : (m.withLimit (some limit)).program.validate = .ok () := hv
    rw [run_of_valid hlimited, hentered, loop_add (hafter (some limit) (by simp))]
    rw [loop, hhalted', cycle_of_limitReached hreached]
    rfl
  · intro limit' hlimit' r t hr
    have hvalid : ((x.withLimit (some limit)).withLimit limit').program.validate = .ok () :=
      (after_sameSettings hx).validate hv
    obtain ⟨z, hz, hzbare⟩ := exists_after_entered (m := m.withLimit limit') (hafter limit' hlimit')
    rw [exists_run_iff hvalid hr, exists_run_iff (m := m.withLimit limit') hv hr,
      exists_ends_iff hz hzbare.symm]
    rfl

end Limit

/-- Every limit either makes no difference to a run, in any number of cycles, or cuts it off. It makes none if
it is above the number of instructions that the run completes without a limit, or if it is that number and the
run halts. -/
theorem run_withLimit {program : Program} {tape : Tape} {input : Input} {sink : Sink}
    (hv : program.validate = .ok ()) (hm : start program tape input sink none = .ok m) :
    (∀ limit : ℕ, start program tape input sink (some limit) = .ok (m.withLimit (some limit))) ∧
      (∃ N, m.Completes N) ∧ ∀ N, m.Completes N → ∀ limit : ℕ,
        (m.Suffices N limit → ∀ fuel, (m.withLimit (some limit)).run fuel =
          ((m.run fuel).1.withLimit (some limit), (m.run fuel).2)) ∧
        (¬ m.Suffices N limit → ∃ x, m.CutsOff limit x) := by
  obtain ⟨rfl, -⟩ := start_ok hm
  refine ⟨?_, exists_completes _, ?_⟩
  · intro limit
    have hnonneg : ¬ (limit : Int) < 0 := by omega
    simp [start, hnonneg, withLimit]
  · intro N hN limit
    constructor
    · intro h fuel
      exact h.run_eq hv rfl rfl hN fuel
    · intro h
      exact exists_cutsOff hv rfl rfl hN h

/-- Two instructions, the second of which finds a cell of 256 to write. -/
def faultBehindOne : Machine where
  program := .ofSource "+."
  tape := ⟨0, 300, 255, #[255]⟩
  input := ⟨[], .exhausted⟩
  sink := .empty .buffer

/-- A limit of one cuts off the run in front of its fault, which a limit of two leaves as it is. -/
theorem run_withLimit_fault_behind_one :
    (Program.ofSource "+.").validate = .ok () ∧
      start (.ofSource "+.") faultBehindOne.tape faultBehindOne.input faultBehindOne.sink none =
        .ok faultBehindOne ∧
      faultBehindOne.Completes 1 ∧ (∃ x, faultBehindOne.CutsOff 1 x) ∧
      ((faultBehindOne.withLimit (some 2)).run 2).2 = .error (.fault (.notAByte (.integer 256))) := by
  have hv : (Program.ofSource "+.").validate = .ok () := rfl
  have hm : start (.ofSource "+.") faultBehindOne.tape faultBehindOne.input faultBehindOne.sink none =
      .ok faultBehindOne := rfl
  have hcycle : ∃ m' c, faultBehindOne.cycle = (m', .ok c) ∧
      m'.cycle = (m', .error (.fault (.notAByte (.integer 256)))) ∧ m'.halted = false :=
    ⟨_, _, rfl, rfl, rfl⟩
  obtain ⟨m', c, hc, he, hhalted⟩ := hcycle
  have hend : faultBehindOne.Ends 1 m' _ := .fails (after_one hc) hhalted he
  have hN : faultBehindOne.Completes (1 : ℕ) := hend.completes
  obtain ⟨-, -, hlimits⟩ := run_withLimit hv hm
  have hlimit := hlimits (1 : ℕ) hN
  have hinsufficient : ¬ faultBehindOne.Suffices (1 : ℕ) 1 := by
    rintro (hlt | ⟨-, hhalts⟩)
    · exact absurd hlt (lt_irrefl _)
    · obtain ⟨n, m₁, hn⟩ := (halts_iff_ends hv).mp hhalts
      obtain ⟨-, -, hr⟩ := hn.unique hend
      cases hr
  have hsufficient : faultBehindOne.Suffices (1 : ℕ) 2 := Or.inl (by exact_mod_cast Nat.one_lt_two)
  have hrun := (hlimit 2).1 hsufficient 2
  have hfault : (faultBehindOne.run 2).2 = .error (.fault (.notAByte (.integer 256))) := rfl
  have hlimited := congrArg Prod.snd hrun
  exact ⟨hv, hm, hN, (hlimit 1).2 hinsufficient, hlimited.trans hfault⟩

end Brainfuck.Machine
