import Mathlib.Data.ENat.Lattice
import Brainfuck.Api.DryRun
import Brainfuck.Proofs.Budget
import Brainfuck.Proofs.Session

/-! Dry runs. They count the instructions that a run completes, up to their cap. -/
namespace Brainfuck

namespace Machine
variable {m m' : Machine} {n : ℕ} {r : Except Stop Unit}

/-- A run that completes a finite number of instructions comes to an end behind them. -/
theorem Completes.exists_ends (h : m.Completes n) : ∃ m' r, m.Ends n m' r := by
  obtain ⟨k, m', r, hk⟩ | hforever := m.exists_ends_or_after
  · have hle : ∀ j : ℕ, j ≤ n ↔ j ≤ k := by
      intro j
      have hn := h j
      have hk := hk.completes j
      rw [Nat.cast_le] at hn hk
      exact hn.trans hk.symm
    obtain rfl : n = k := Nat.le_antisymm ((hle n).mp (Nat.le_refl n)) ((hle k).mpr (Nat.le_refl k))
    exact ⟨m', r, hk⟩
  · have hbeyond : n + 1 ≤ n := by exact_mod_cast (h (n + 1)).mpr (hforever (n + 1))
    omega

/-- A machine completes so many instructions and has not halted behind them. -/
def Outlasts (m : Machine) (cap : ℕ) : Prop :=
  ∃ x, m.after cap = some x ∧ x.halted = false

theorem outlasts_iff (hv : m.program.validate = .ok ()) {N : ℕ∞} (hN : m.Completes N) (cap : ℕ) :
    m.Outlasts cap ↔ ¬ m.Suffices N cap := by
  constructor
  · rintro ⟨x, hx, hhalted⟩ hsuffices
    exact absurd (hsuffices.lt hv hN hx hhalted) (Nat.lt_irrefl cap)
  · exact exists_after_of_not_suffices hv hN

theorem le_completes_iff {N : ℕ∞} (hN : m.Completes N) (cap : ℕ) :
    cap ≤ N ↔ m.Outlasts cap ∨ ∃ x, m.Ends cap x (.ok ()) := by
  constructor
  · intro hle
    obtain ⟨x, hx⟩ := (hN cap).mp hle
    cases hhalted : x.halted with
    | false => exact Or.inl ⟨x, hx, hhalted⟩
    | true => exact Or.inr ⟨x, .halts hx hhalted⟩
  · rintro (⟨x, hx, -⟩ | ⟨x, hends⟩)
    · exact (hN cap).mpr ⟨x, hx⟩
    · cases hends with
      | halts hx _ => exact (hN cap).mpr ⟨x, hx⟩

/-- Without a limit no machine comes to one. -/
theorem Endless.ends_ne_stepLimit (h : m.Endless) (hm : m.maxSteps = none) (hn : m.Ends n m' r) :
    r ≠ .error (.fault .stepLimit) := by
  rintro rfl
  have hnone : m'.maxSteps = none := hn.sameSettings.maxSteps.trans hm
  obtain ⟨-, hl⟩ | ⟨v, hv⟩ := h.ends_fault hn
  · rw [limitReached, hnone] at hl
    cases hl
  · cases hv

/-- A limit is reached exactly where the machine outlasts it. -/
theorem Endless.stepLimit_iff (h : m.Endless) (h0 : m.steps = 0) (hm : m.maxSteps = none) (cap : ℕ) :
    (∃ fuel, ((m.withLimit (some (cap : Int))).run fuel).2 = .error (.fault .stepLimit)) ↔ m.Outlasts cap := by
  obtain ⟨N, hN⟩ := m.exists_completes
  rw [outlasts_iff h.valid hN]
  constructor
  · rintro ⟨fuel, hraised⟩ hsuffices
    rw [hsuffices.run_eq h.valid h0 hm hN] at hraised
    have hrun : m.run fuel = ((m.run fuel).1, .error (.fault .stepLimit)) := Prod.ext rfl hraised
    obtain ⟨n, m', hends, -⟩ := ends_of_run h.valid hrun (by simp)
    exact h.ends_ne_stepLimit hm hends rfl
  · intro hinsufficient
    obtain ⟨x, hx⟩ := exists_cutsOff h.valid h0 hm hN hinsufficient
    exact ⟨cap + 1, congrArg Prod.snd (hx.raises (cap + 1) (Nat.lt_succ_self cap))⟩

end Machine

namespace Debugger

def Setup.withLimit (setup : Setup) (limit : Option Int) : Setup :=
  { setup with maxSteps := .ok limit }

variable {setup : Setup} {program : Program} {m : Machine}

theorem Setup.blank_withLimit (setup : Setup) (limit : Option Int) :
    Tape.blank (setup.withLimit limit).layout (setup.withLimit limit).room = Tape.blank setup.layout setup.room := rfl

theorem Setup.maxSteps_eq (h : setup.machine program = .ok m) : setup.maxSteps = .ok m.maxSteps := by
  obtain ⟨tape, limit, -, hlimit, hstart⟩ := machine_ok h
  obtain ⟨rfl, -⟩ := Machine.start_ok hstart
  exact hlimit

theorem Setup.machine_maxSteps {limit : Option Int} (h : (setup.withLimit limit).machine program = .ok m) :
    m.maxSteps = limit :=
  (Except.ok.inj (maxSteps_eq h)).symm

/-- The limit of a setup becomes that of its machine. -/
theorem Setup.machine_withLimit (h : (setup.withLimit none).machine program = .ok m) (limit : ℕ) :
    (setup.withLimit (some limit)).machine program = .ok (m.withLimit (some limit)) := by
  obtain ⟨tape, limit', ht, hlimit, hstart⟩ := machine_ok h
  obtain rfl := Except.ok.inj hlimit
  obtain rfl := Except.ok.inj hstart
  rw [blank_withLimit] at ht
  have hnonneg : ¬ (limit : Int) < 0 := by omega
  simp only [machine, blank_withLimit, ht, bind, Except.bind]
  simp only [withLimit, Machine.start, hnonneg, if_false]
  rfl

end Debugger

namespace Api.DryRun
variable {program : Program} {setup : Debugger.Setup} {m m' : Machine} {cap : Int}
  {r : Except Stop Unit}

theorem of_stepLimit
    (hm : (setup.withLimit (some cap)).machine program = .ok m)
    (hr : m.run (cap.toNat + 1) = (m', .error (.fault .stepLimit))) :
    ∃ d, DryRun.of program setup (.ok cap) = .ok d ∧ d.total = cap ∧ d.capped = true := by
  have hmachine : { setup with maxSteps := (Except.ok cap : Setting Int).map some : Debugger.Setup }.machine
      program = .ok m := hm
  simp only [DryRun.of, hmachine, bind, Except.bind, hr]
  exact ⟨_, rfl, rfl, rfl⟩

theorem of_run
    (hm : (setup.withLimit (some cap)).machine program = .ok m)
    (hr : m.run (cap.toNat + 1) = (m', r)) (hlimit : r ≠ .error (.fault .stepLimit)) :
    ∃ d, DryRun.of program setup (.ok cap) = .ok d ∧ d.total = m'.steps ∧
      (d.capped = true ↔ cap ≤ m'.steps) := by
  have hmachine : { setup with maxSteps := (Except.ok cap : Setting Int).map some : Debugger.Setup }.machine
      program = .ok m := hm
  simp only [DryRun.of, hmachine, bind, Except.bind, hr]
  split
  · exact absurd rfl hlimit
  · exact ⟨_, rfl, rfl, decide_eq_true_iff⟩
  · exact ⟨_, rfl, rfl, decide_eq_true_iff⟩

/-- A dry run counts all instructions that a run completes, if they are no more than its cap, and else as
many as the cap. It is capped when there are no fewer than that. -/
theorem of_completes (hi : ∀ v ∈ setup.input, ∃ n, v = .integer n) (hv : program.validate = .ok ())
    (hm : (setup.withLimit none).machine program = .ok m) {N : ℕ∞}
    (hN : m.Completes N) (cap : ℕ) :
    ∃ d, DryRun.of program setup (.ok (cap : Int)) = .ok d ∧
      (∀ n : ℕ, min N cap = n → d.total = n) ∧ (d.capped = true ↔ cap ≤ N) := by
  have hinput : ∀ v ∈ (setup.withLimit none).input, ∃ n, v = .integer n := hi
  have hendless := Debugger.Setup.machine_endless hinput hv hm
  have hsteps := Debugger.Setup.machine_steps hm
  have hnone := Debugger.Setup.machine_maxSteps hm
  have hvalid : m.program.validate = .ok () := hendless.valid
  have hlimited := Debugger.Setup.machine_withLimit hm cap
  by_cases hsuffices : m.Suffices N cap
  · have hle : N ≤ cap := by
      obtain hlt | ⟨rfl, -⟩ := hsuffices
      · exact hlt.le
      · exact le_refl _
    obtain ⟨n, rfl⟩ := ENat.ne_top_iff_exists.mp (ne_top_of_le_ne_top (ENat.natCast_ne_top cap) hle)
    obtain ⟨m', r, hends⟩ := hN.exists_ends
    have hfuel : n < cap + 1 := Nat.lt_succ_of_le (by exact_mod_cast hle)
    obtain ⟨m₁, hrun, hbare⟩ := Machine.run_of_ends_of_lt hvalid hends hfuel
    have hequal := hsuffices.run_eq hvalid hsteps hnone hN (cap + 1)
    rw [hrun] at hequal
    obtain ⟨d, hd, htotal, hcapped⟩ := of_run hlimited hequal (hendless.ends_ne_stepLimit hnone hends)
    have hcount : (m₁.withLimit (some (cap : Int))).steps = n := by
      have hsame : m₁.bare.steps = m'.bare.steps := congrArg Machine.steps hbare
      have hsum := hends.steps
      show m₁.bare.steps = n
      rw [hsame]
      show m'.steps = n
      omega
    rw [hcount] at htotal hcapped
    refine ⟨d, hd, ?_, ?_⟩
    · intro k hk
      rw [min_eq_left hle] at hk
      rw [htotal]
      exact_mod_cast hk
    · rw [hcapped]
      exact_mod_cast Iff.rfl
  · obtain ⟨x, hx⟩ := Machine.exists_cutsOff hvalid hsteps hnone hN hsuffices
    have hle : (cap : ℕ∞) ≤ N := by
      by_contra hlt
      exact hsuffices (Or.inl (not_le.mp hlt))
    obtain ⟨d, hd, htotal, hcapped⟩ := of_stepLimit hlimited (hx.raises (cap + 1) (Nat.lt_succ_self cap))
    refine ⟨d, hd, ?_, ?_⟩
    · intro k hk
      rw [min_eq_right hle] at hk
      rw [htotal]
      exact_mod_cast hk
    · exact iff_of_true hcapped hle

/-- A dry run is capped where its step limit cuts it off, and where the program halts behind exactly as many
steps as the cap, too. There alone the flag is wrong: the program has its full total. -/
theorem capped_iff (hi : ∀ v ∈ setup.input, ∃ n, v = .integer n) (hv : program.validate = .ok ())
    (hm : (setup.withLimit none).machine program = .ok m) (cap : ℕ) :
    ∃ d, DryRun.of program setup (.ok (cap : Int)) = .ok d ∧
      ((∃ fuel, ((m.withLimit (some (cap : Int))).run fuel).2 = .error (.fault .stepLimit)) ↔ m.Outlasts cap) ∧
      (d.capped = true ↔ m.Outlasts cap ∨ ∃ x, m.Ends cap x (.ok ())) ∧
      ((d.capped = true ↔ m.Outlasts cap) ↔ ¬ ∃ x, m.Ends cap x (.ok ())) ∧
      ∀ x, m.Ends cap x (.ok ()) → d.total = cap := by
  have hinput : ∀ v ∈ (setup.withLimit none).input, ∃ n, v = .integer n := hi
  have hendless := Debugger.Setup.machine_endless hinput hv hm
  have hsteps := Debugger.Setup.machine_steps hm
  have hnone := Debugger.Setup.machine_maxSteps hm
  obtain ⟨N, hN⟩ := m.exists_completes
  obtain ⟨d, hd, htotal, hcapped⟩ := of_completes hi hv hm hN cap
  rw [Machine.le_completes_iff hN] at hcapped
  -- a program that halts there has no further instruction
  have happart : (∃ x, m.Ends cap x (.ok ())) → ¬ m.Outlasts cap := by
    rintro ⟨x, hx⟩ ⟨y, hy, hhalted⟩
    cases hx with
    | halts hx hm =>
      obtain rfl := Option.some.inj (hx.symm.trans hy)
      rw [hm] at hhalted
      cases hhalted
  refine ⟨d, hd, hendless.stepLimit_iff hsteps hnone cap, hcapped, ?_, ?_⟩
  · rw [hcapped]
    constructor
    · intro hflag hhalts
      exact happart hhalts (hflag.mp (Or.inr hhalts))
    · intro hhalts
      exact or_iff_left hhalts
  · intro x hx
    have hsame : min N (cap : ℕ∞) = cap := min_eq_right ((Machine.le_completes_iff hN cap).mpr (Or.inr ⟨x, hx⟩))
    exact htotal cap hsame

/-- Three additions on five cells. -/
def three : Debugger.Setup where
  code := "+++"
  size := .ok 5

/-- Three additions are cut off by a cap of two, and by a cap of three they are not. -/
theorem capped_iff_three :
    ∃ m, (three.withLimit none).machine (.ofSource "+++") = .ok m ∧ m.Outlasts 2 ∧
      (∃ d, DryRun.of (.ofSource "+++") three (.ok 2) = .ok d ∧ d.capped = true) ∧
      ∃ d, DryRun.of (.ofSource "+++") three (.ok 3) = .ok d ∧ d.capped = true ∧ d.total = 3 := by
  have hi : ∀ v ∈ three.input, ∃ n, v = .integer n := by simp [three]
  have hv : (Program.ofSource "+++").validate = .ok () := rfl
  obtain ⟨m, hm, houtlasts, x, hx⟩ : ∃ m, (three.withLimit none).machine (.ofSource "+++") = .ok m ∧
      m.Outlasts 2 ∧ ∃ x, m.Ends 3 x (.ok ()) :=
    ⟨_, rfl, ⟨_, rfl, rfl⟩, _, .halts rfl rfl⟩
  obtain ⟨d, hd, -, hcapped, -⟩ := capped_iff hi hv hm 2
  obtain ⟨e, he, -, hcapped', -, htotal⟩ := capped_iff hi hv hm 3
  exact ⟨m, hm, houtlasts, ⟨d, hd, hcapped.mpr (Or.inl houtlasts)⟩, e, he, hcapped'.mpr (Or.inr ⟨x, hx⟩),
    htotal x hx⟩

/-- Three additions do not outlast a cap of three, and yet they are flagged. -/
theorem capped_without_outlasting :
    ∃ m d, (three.withLimit none).machine (.ofSource "+++") = .ok m ∧
      DryRun.of (.ofSource "+++") three (.ok 3) = .ok d ∧ d.capped = true ∧ ¬ m.Outlasts 3 := by
  refine ⟨_, _, rfl, rfl, rfl, ?_⟩
  rintro ⟨x, hx, hhalted⟩
  obtain rfl := Option.some.inj hx
  cases hhalted

end Api.DryRun

end Brainfuck
