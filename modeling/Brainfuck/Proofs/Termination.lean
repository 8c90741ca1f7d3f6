import Brainfuck.Proofs.Reads
import Brainfuck.Proofs.Safety
import Brainfuck.Proofs.Walk

/-! Termination. Every cycle of a machine with a limit uses up one of the steps that are left, and the loops
inside a cycle end as well: the walks of jumps at the edge of the program, the reads behind the pending values. -/
namespace Brainfuck

namespace Machine

/-- Behind the last value of its input a machine finds nothing, or a value that fits into its cells. -/
def Fed (m : Machine) : Prop :=
  ∀ v, m.input.ending = .repeats v → m.tape.inRange? v = some true

def left (limit : Int) (m : Machine) : Nat :=
  (limit - m.steps).toNat

/-- The loops inside a cycle are bounded: a walk from the instruction pointer, by the size of the program, and
the reads of a value, by the values that are pending. -/
structure Bounded (m : Machine) : Prop where
  walk : ∀ c d, m.program.instructionAt (.integer m.instructionPointer) = .ok c →
    ∃ n r, n ≤ m.program.size ∧ m.program.Walks d 1 (m.instructionPointer + d.sign) n r ∧
      m.program.jumpDistance m.instructionPointer d = r.map (· - m.instructionPointer)
  read : ∃ n r, n ≤ m.input.pending.length + 1 ∧
    m.input.Reads m.tape.minimum m.tape.maximum n r (m.input.readWithin m.tape.minimum m.tape.maximum).rest ∧
      (m.input.readWithin m.tape.minimum m.tape.maximum).outcome = r.mapError .fault

/-- A machine ends after at most `bound` cycles, whether it is run or stepped through, and all its cycles are
bounded. -/
structure EndsWithin (m : Machine) (bound : Nat) : Prop where
  run : ∃ n m' r, n ≤ bound ∧ m'.steps = m.steps + n ∧ r ≠ .error .unfinished ∧
    ∀ fuel, n < fuel → m.run fuel = (m', r)
  drain : ∀ s : Stepper, ∃ n m' t r, n ≤ bound ∧ m'.steps = m.steps + n ∧ r ≠ .error .unfinished ∧
    ∀ fuel, n + 1 < fuel → s.drain fuel m = ⟨m', t, r⟩
  cycles : ∀ n m', m.after n = some m' → n ≤ bound ∧ m'.Bounded

variable {m m' : Machine} {limit : Int} {c : Instruction} {n : Nat}

theorem Fed.of_sameSettings (h : m.Fed) (hs : m.SameSettings m') : m'.Fed := by
  intro v hv
  rw [hs.ending] at hv
  have hfits := h v hv
  simp only [Tape.inRange?, hs.minimum, hs.maximum] at hfits ⊢
  exact hfits

theorem Fed.not_recurs (h : m.Fed) : ¬ m.input.ending.Recurs m.tape.minimum m.tape.maximum := by
  rintro ⟨v, hv, hfits⟩
  cases (h v hv).symm.trans hfits

section Finishes

theorem store_ne_unfinished (m : Machine) (v : Datum) : (m.store v).2 ≠ .error .unfinished := by
  unfold store
  split
  · simp
  · simp

theorem update_ne_unfinished (m : Machine) (f : Tape → Int → Int) : (m.update f).2 ≠ .error .unfinished := by
  unfold update
  split
  · simp
  · exact m.store_ne_unfinished _

theorem send_ne_unfinished (m : Machine) : m.send.2 ≠ .error .unfinished := by
  unfold send
  split
  · simp
  · split
    · simp
    · simp

theorem jumpIf_ne_unfinished (m : Machine) (d : Direction) (test : Int → Bool) :
    (m.jumpIf d test).2 ≠ .error .unfinished := by
  unfold jumpIf
  split
  · simp
  · split
    · split
      · simp
      · simp
    · simp

theorem Fed.receive_ne_unfinished (h : m.Fed) : m.receive.2 ≠ .error .unfinished := by
  have houtcome := Input.readWithin_outcome_ne h.not_recurs
  unfold receive
  dsimp only
  split
  · next e he =>
    rw [he] at houtcome
    simpa using houtcome
  · exact store_ne_unfinished _ _

/-- Only reads can go on forever, and those of a fed machine do not. -/
theorem Fed.perform_ne_unfinished (h : m.Fed) (c : Instruction) : (m.perform c).2 ≠ .error .unfinished := by
  cases c with
  | right => simp [perform]
  | left => simp [perform]
  | increment => exact m.update_ne_unfinished _
  | decrement => exact m.update_ne_unfinished _
  | read => exact h.receive_ne_unfinished
  | write => exact m.send_ne_unfinished
  | loopOpen => exact m.jumpIf_ne_unfinished _ _
  | loopClose => exact m.jumpIf_ne_unfinished _ _

theorem Fed.cycle_ne_unfinished (h : m.Fed) : m.cycle.2 ≠ .error .unfinished := by
  intro hunfinished
  obtain ⟨-, he | ⟨f, -, he⟩⟩ | ⟨-, c, -, hp⟩ := cycle_error_cases (Prod.ext rfl hunfinished)
  · cases he
  · cases he
  · exact h.perform_ne_unfinished c (congrArg Prod.snd hp)

end Finishes

theorem Fed.bounded (h : m.Fed) : m.Bounded := by
  constructor
  · intro c d hc
    obtain ⟨hlower, hupper⟩ := Program.instructionAt_ok hc
    exact Program.exists_walks_of_inside d hlower hupper
  · exact Input.exists_reads (Input.readWithin_outcome_ne h.not_recurs)

section Limit
variable (hl : m.maxSteps = some limit)
include hl

/-- A cycle uses up one of the steps that are left. -/
theorem left_of_cycle_ok (hc : m.cycle = (m', .ok c)) : m.left limit = m'.left limit + 1 := by
  have hsteps := cycle_ok_steps hc
  have hlt : m.steps < limit := steps_lt_of_not_limitReached (exists_perform_of_cycle_ok hc).1 hl
  simp only [left]
  omega

theorem le_left_of_after (hn : m.after n = some m') : n ≤ m.left limit := by
  induction n generalizing m with
  | zero => exact Nat.zero_le _
  | succ n ih =>
    obtain ⟨m₁, c, hc, hn⟩ := exists_cycle_of_after_succ hn
    have hleft := left_of_cycle_ok hl hc
    have hle := ih ((SameSettings.of_cycle hc).maxSteps.trans hl) hn
    omega

/-- The cycles of a fed machine end before the steps that are left are used up, or with them. -/
theorem Fed.exists_ends (h : m.Fed) :
    ∃ n m' r, m.Ends n m' r ∧ n ≤ m.left limit ∧ r ≠ .error .unfinished := by
  obtain ⟨n, m', r, hn⟩ | hforever := m.exists_ends_or_after
  · refine ⟨n, m', r, hn, ?_, ?_⟩
    · cases hn with
      | halts hn _ => exact le_left_of_after hl hn
      | fails hn _ _ => exact le_left_of_after hl hn
    · cases hn with
      | halts _ _ => simp
      | fails hn _ he =>
        have hcycle := (h.of_sameSettings (after_sameSettings hn)).cycle_ne_unfinished
        rw [he] at hcycle
        simpa using hcycle
  · obtain ⟨m', hn⟩ := hforever (m.left limit + 1)
    exact absurd (le_left_of_after hl hn) (Nat.not_succ_le_self _)

end Limit

/-- A run comes to its end where the cycles do. -/
theorem Fed.exists_run (h : m.Fed) (hl : m.maxSteps = some limit) :
    ∃ n m' r, n ≤ m.left limit ∧ m'.steps = m.steps + n ∧ r ≠ .error .unfinished ∧
      ∀ fuel, n < fuel → m.run fuel = (m', r) := by
  cases hv : m.program.validate with
  | error f =>
    exact ⟨0, m, .error (.fault f), Nat.zero_le _, (Int.add_zero _).symm, by simp,
      fun fuel _ => run_of_invalid hv fuel⟩
  | ok u =>
    have hfed : m.entered.Fed := h
    have hlimit : m.entered.maxSteps = some limit := hl
    obtain ⟨n, m', r, hn, hle, hr⟩ := hfed.exists_ends hlimit
    have hsteps : (leave (m', r)).1.bare.steps = m'.bare.steps := congrArg Machine.steps (leave_bare m' r).1
    refine ⟨n, (leave (m', r)).1, r, hle, hsteps.trans hn.steps, hr, ?_⟩
    intro fuel hfuel
    rw [run_of_valid hv, loop_of_ends hn hfuel]
    exact Prod.ext rfl (leave_bare m' r).2

end Machine

namespace Stepper
variable {m : Machine} {limit : Int}

theorem view_ne_unfinished (s : Stepper) (m : Machine) (command : Option String) :
    s.view m command ≠ .error .unfinished := by
  unfold view
  intro h
  cases hr : s.reach with
  | error f =>
    rw [hr] at h
    cases h
  | ok reach =>
    rw [hr] at h
    cases h

theorem view_command {s : Stepper} {command : Option String} {x : Snapshot}
    (h : s.view m command = .ok x) : x.command = command := by
  unfold view at h
  cases hr : s.reach with
  | error f =>
    rw [hr] at h
    cases h
  | ok reach =>
    rw [hr] at h
    cases h
    rfl

inductive Goes (m : Machine) : Step → Prop where
  | spent {t : Stepper} {y : Except Stop Snapshot} (ht : t.phase = .spent) (hy : y ≠ .error .unfinished)
      (hx : ∀ x, y = .ok x → x.command = none) : Goes m ⟨m, t, y⟩
  | fails {m' : Machine} {t : Stepper} {e : Stop} (hc : m.cycle = (m', .error e)) :
      Goes m ⟨m', t, .error e⟩
  | cycles {m' : Machine} {t : Stepper} {c : Instruction} {y : Except Stop Snapshot}
      (hc : m.cycle = (m', .ok c)) (hy : y ≠ .error .unfinished) : Goes m ⟨m', t, y⟩

theorem advance_goes (s : Stepper) (m : Machine) : Goes m (s.advance m) := by
  cases hm : m.halted with
  | true =>
    have hstep : s.advance m = ⟨m, { s with phase := .spent }, s.view m none⟩ := by
      simp only [advance, hm, if_true]
    rw [hstep]
    exact .spent rfl (s.view_ne_unfinished m none) fun x hx => view_command hx
  | false =>
    rcases hc : m.cycle with ⟨m', e | c⟩
    · rw [advance_of_error hm hc]
      exact .fails hc
    · have hne := s.view_ne_unfinished m' (some c.toString)
      simp only [advance, hm, hc]
      cases hview : s.view m' (some c.toString) with
      | error e =>
        rw [hview] at hne
        exact .cycles hc (by simpa using hne)
      | ok x => exact .cycles hc (by simp)

theorem next_goes (s : Stepper) (m : Machine) : Goes m (s.next m) := by
  unfold next
  split
  · next hp => exact .spent hp (by simp) (by simp)
  · exact s.advance_goes m
  · split
    · exact .spent rfl (by simp) (by simp)
    · exact s.advance_goes m

theorem next_ne_unfinished (s : Stepper) (h : m.Fed) : (s.next m).shown ≠ .error .unfinished := by
  have hcycle := h.cycle_ne_unfinished
  have hgoes := s.next_goes m
  generalize s.next m = r at hgoes
  cases hgoes with
  | spent _ hy _ => exact hy
  | fails hc =>
    rw [hc] at hcycle
    simpa using hcycle
  | cycles _ hy => exact hy

/-- A step takes one of the cycles that are left, or none. -/
theorem Goes.exists_steps {m' : Machine} {t : Stepper} {y : Except Stop Snapshot} (h : Goes m ⟨m', t, y⟩)
    (hl : m.maxSteps = some limit) : ∃ n : Nat, n ≤ m.left limit ∧ m'.steps = m.steps + n := by
  cases h with
  | spent => exact ⟨0, Nat.zero_le _, (Int.add_zero _).symm⟩
  | fails hc =>
    obtain ⟨-, hsteps⟩ := Machine.cycle_error_counters hc
    exact ⟨0, Nat.zero_le _, by omega⟩
  | cycles hc =>
    have hsteps := Machine.cycle_ok_steps hc
    have hleft := Machine.left_of_cycle_ok hl hc
    exact ⟨1, by omega, by omega⟩

section Drain
variable {s t : Stepper} {m' : Machine} {shown : List Snapshot}

theorem drainFrom_of_spent (hs : s.phase = .spent) (fuel : Nat) (m : Machine) :
    drainFrom (fuel + 1) shown s m = ⟨m, s, .ok shown.reverse⟩ := by
  rw [drainFrom, if_pos hs]

theorem drainFrom_of_error {e : Stop} (hs : s.phase ≠ .spent) (hn : s.next m = ⟨m', t, .error e⟩)
    (fuel : Nat) : drainFrom (fuel + 1) shown s m = ⟨m', t, .error e⟩ := by
  rw [drainFrom, if_neg hs, hn]

theorem drainFrom_of_ok {x : Snapshot} (hs : s.phase ≠ .spent) (hn : s.next m = ⟨m', t, .ok x⟩)
    (fuel : Nat) : drainFrom (fuel + 1) shown s m = drainFrom fuel (x :: shown) t m' := by
  rw [drainFrom, if_neg hs, hn]

/-- Draining a stepper comes to an end where the cycles do. -/
theorem exists_drainFrom (h : m.Fed) (hl : m.maxSteps = some limit) (shown : List Snapshot) (s : Stepper) :
    ∃ n m' t r, n ≤ m.left limit ∧ m'.steps = m.steps + n ∧ r ≠ .error .unfinished ∧
      ∀ fuel, n + 1 < fuel → drainFrom fuel shown s m = ⟨m', t, r⟩ := by
  induction hk : m.left limit using Nat.strongRecOn generalizing m shown s with
  | ind k ih =>
    subst hk
    by_cases hs : s.phase = .spent
    · refine ⟨0, m, s, .ok shown.reverse, Nat.zero_le _, (Int.add_zero _).symm, by simp, ?_⟩
      intro fuel hfuel
      obtain ⟨j, rfl⟩ := Nat.exists_eq_add_of_lt hfuel
      exact drainFrom_of_spent hs _ m
    have hne := s.next_ne_unfinished h
    have hgoes := s.next_goes m
    rcases hnext : s.next m with ⟨m', t, e | x⟩
    · rw [hnext] at hne hgoes
      obtain ⟨n, hn, hsteps⟩ := hgoes.exists_steps hl
      refine ⟨n, m', t, .error e, hn, hsteps, by simpa using hne, ?_⟩
      intro fuel hfuel
      obtain ⟨j, rfl⟩ := Nat.exists_eq_add_of_lt hfuel
      exact drainFrom_of_error hs hnext _
    · rw [hnext] at hgoes
      cases hgoes with
      | spent ht _ _ =>
        -- nothing comes behind what a spent stepper shows
        refine ⟨0, m, t, .ok (x :: shown).reverse, Nat.zero_le _, (Int.add_zero _).symm, by simp, ?_⟩
        intro fuel hfuel
        obtain ⟨j, rfl⟩ : ∃ j, fuel = j + 2 := ⟨fuel - 2, by omega⟩
        rw [drainFrom_of_ok hs hnext, drainFrom_of_spent ht]
      | cycles hc _ =>
        have hsteps := Machine.cycle_ok_steps hc
        have hleft := Machine.left_of_cycle_ok hl hc
        have hsettings := Machine.SameSettings.of_cycle hc
        obtain ⟨n, m₁, u, r, hn, hsteps₁, hr, hdrain⟩ := ih (m'.left limit) (by omega)
          (h.of_sameSettings hsettings) (hsettings.maxSteps.trans hl) (x :: shown) t rfl
        refine ⟨n + 1, m₁, u, r, by omega, by omega, hr, ?_⟩
        intro fuel hfuel
        obtain ⟨j, rfl⟩ := Nat.exists_eq_add_of_lt hfuel
        rw [drainFrom_of_ok hs hnext]
        exact hdrain _ (by omega)

end Drain

end Stepper

/-- A fed machine with a limit ends within the steps that are left. -/
theorem Machine.Fed.endsWithin {m : Machine} {limit : Int} (h : m.Fed) (hl : m.maxSteps = some limit) :
    m.EndsWithin (m.left limit) where
  run := h.exists_run hl
  drain := Stepper.exists_drainFrom h hl []
  cycles _ _ hn := ⟨le_left_of_after hl hn, (h.of_sameSettings (after_sameSettings hn)).bounded⟩

end Brainfuck
