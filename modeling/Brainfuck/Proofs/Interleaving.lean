import Brainfuck.Proofs.Failures
import Brainfuck.Proofs.Pool

/-! Interleaving. Whatever the order in which steppers and runs take turns at a machine, it goes through
its own cycles, one after the other, and comes to its own end. -/
namespace Brainfuck.Pool

/-- What the next step of a stepper comes to. A live one shows the machine right behind one cycle, or shows
once that it has halted; nothing comes of a spent one. -/
structure Steps (q : Pool) (i : Nat) (s : Stepper) (reach : Int) : Prop where
  cycles : ∀ m c, s.phase ≠ .spent → q.machine.cycle = (m, .ok c) →
    q.call (.next i) =
      (⟨m, q.steppers.set i { s with phase := .walking }⟩, .shown (m.snapshot (some c.toString) reach))
  fails : ∀ m e, s.phase ≠ .spent → q.machine.halted = false → q.machine.cycle = (m, .error e) →
    q.call (.next i) = (⟨m, q.steppers.set i { s with phase := .spent }⟩, .raised e)
  halts : s.phase ≠ .spent → q.machine.halted = true →
    q.call (.next i) =
      (⟨q.machine, q.steppers.set i { s with phase := .spent }⟩, .shown (q.machine.snapshot none reach))
  spent : s.phase = .spent → q.call (.next i) = (q, .raised (.fault .stepperExhausted))

variable {m m' : Machine} {q : Pool} {i n : Nat} {s : Stepper} {reach : Int}

theorem steps_of_valid (hv : q.machine.program.validate = .ok ()) (hs : q.steppers[i]? = some s)
    (hr : s.reach = .ok reach) : q.Steps i s reach := by
  constructor
  · intro m c hlive hc
    rw [call_next hs, Stepper.next_of_live hlive hv, Stepper.advance_of_ok hr hc]
    rfl
  · intro m e hlive hm he
    rw [call_next hs, Stepper.next_of_live hlive hv, Stepper.advance_of_error hm he]
    rfl
  · intro hlive hm
    rw [call_next hs, Stepper.next_of_live hlive hv, Stepper.advance_of_halted hr hm]
    rfl
  · intro hspent
    rw [call_next hs, Stepper.next_of_spent hspent]
    obtain ⟨hi, rfl⟩ := List.getElem?_eq_some_iff.mp hs
    rw [List.set_getElem_self hi]
    rfl

/-- The answers after which a stepper is spent: the last snapshot, and failures. -/
def Reply.Last : Reply → Prop
  | nothing => False
  | shown x => x.command = none
  | raised _ => True

theorem spent_of_last (hv : q.machine.program.validate = .ok ()) (ht : q.Told)
    (hy : (q.call (.next i)).2.Last) :
    ∃ s, (q.call (.next i)).1.steppers[i]? = some s ∧ s.phase = .spent := by
  cases hs : q.steppers[i]? with
  | none =>
    rw [call_next_none hs] at hy
    exact hy.elim
  | some s =>
    obtain ⟨hi, -⟩ := List.getElem?_eq_some_iff.mp hs
    obtain ⟨reach, hreach⟩ := ht s (List.mem_of_getElem? hs)
    have hsteps := steps_of_valid hv hs hreach
    by_cases hlive : s.phase = .spent
    · rw [hsteps.spent hlive]
      exact ⟨s, hs, hlive⟩
    · cases hm : q.machine.halted with
      | true =>
        rw [hsteps.halts hlive hm]
        exact ⟨_, List.getElem?_set_self hi, rfl⟩
      | false =>
        rcases hc : q.machine.cycle with ⟨m, e | c⟩
        · rw [hsteps.fails m e hlive hm hc]
          exact ⟨_, List.getElem?_set_self hi, rfl⟩
        · rw [hsteps.cycles m c hlive hc] at hy
          cases hy

/-- Nothing comes of a spent stepper any more. -/
theorem answers_of_spent (hs : q.steppers[i]? = some s) (hspent : s.phase = .spent) (calls : List Call) :
    ∀ y, (Call.next i, y) ∈ q.answers calls → y = .raised (.fault .stepperExhausted) := by
  induction calls generalizing q s with
  | nil =>
    intro y hy
    cases hy
  | cons c calls ih =>
    intro y hy
    obtain ⟨t, ht, -, hphase⟩ := exists_stepper_call hs c
    obtain heq | hy := List.mem_cons.mp hy
    · obtain ⟨rfl, rfl⟩ := Prod.mk.inj heq
      rw [call_next hs, Stepper.next_of_spent hspent]
      rfl
    · exact ih ht (hphase hspent) y hy

def Smooth (answers : List (Call × Reply)) : Prop :=
  ∀ c e, (c, Reply.raised e) ∈ answers → e = .fault .stepperExhausted

def instructionShown : Call × Reply → Option (Nat × Snapshot)
  | (.next i, .shown x) => if x.command.isSome then some (i, x) else none
  | _ => none

/-- What a call does that does not fail: nothing to the machine, one cycle, or all cycles that are left. -/
inductive Moves (q : Pool) : Call → Pool × Reply → Prop where
  | stays {c : Call} {r : Pool × Reply} (hm : r.1.machine = q.machine)
      (hx : instructionShown (c, r.2) = none) : Moves q c r
  | cycles {i : Nat} {s : Stepper} {reach : Int} {c : Instruction} {r : Pool × Reply}
      (hs : q.steppers[i]? = some s) (hr : s.reach = .ok reach)
      (hc : q.machine.cycle = (r.1.machine, .ok c))
      (hx : instructionShown (.next i, r.2) = some (i, r.1.machine.snapshot (some c.toString) reach)) :
      Moves q (.next i) r
  | runs {fuel n : Nat} {m : Machine} {r : Pool × Reply} (hn : q.machine.Ends n m (.ok ()))
      (hm : m.bare = r.1.machine.bare) (hx : instructionShown (.run fuel, r.2) = none) :
      Moves q (.run fuel) r

/-- Every call either fails or moves the machine in one of these ways. -/
theorem moves_of_smooth (hv : q.machine.program.validate = .ok ()) (ht : q.Told) (c : Call)
    (hy : ∀ e, (q.call c).2 = .raised e → e = .fault .stepperExhausted) : q.Moves c (q.call c) := by
  cases c with
  | make reach => exact .stays rfl rfl
  | run fuel =>
    rcases hrun : q.machine.run fuel with ⟨m, e | u⟩
    · have hcall : (q.call (.run fuel)).2 = .raised e := by rw [call, hrun]; rfl
      obtain rfl := hy e hcall
      obtain ⟨n, m', hn, -⟩ := Machine.ends_of_run hv hrun (by simp)
      cases hn with
      | @fails m₁ _ hn hm he => exact absurd (congrArg Prod.snd he) m₁.cycle_ne_exhausted
    · obtain ⟨n, m', hn, hbare⟩ := Machine.ends_of_run hv hrun (by simp)
      refine .runs hn ?_ ?_
      · rw [hbare, call, hrun]
      · rw [call, hrun]
        rfl
  | next i =>
    cases hs : q.steppers[i]? with
    | none =>
      rw [call_next_none hs]
      exact .stays rfl rfl
    | some s =>
      obtain ⟨reach, hr⟩ := ht s (List.mem_of_getElem? hs)
      have hsteps := steps_of_valid hv hs hr
      by_cases hlive : s.phase = .spent
      · rw [hsteps.spent hlive]
        exact .stays rfl rfl
      · cases hm : q.machine.halted with
        | true =>
          rw [hsteps.halts hlive hm]
          exact .stays rfl rfl
        | false =>
          rcases hc : q.machine.cycle with ⟨m, e | c⟩
          · rw [hsteps.fails m e hlive hm hc] at hy
            obtain rfl := hy e rfl
            exact absurd (congrArg Prod.snd hc) q.machine.cycle_ne_exhausted
          · rw [hsteps.cycles m c hlive hc]
            exact .cycles hs hr hc rfl

/-- How a pool stands to the machine `m` that it began with, `n` cycles later: it has come there without a
detour, the instructions shown are the first ones in the machine's own order, and only runs leave some out
and do so for good. -/
structure Follows (m : Machine) (calls : List Call) (q : Pool) (xs : List (Nat × Snapshot)) (n : Nat) :
    Prop where
  machine : ∃ m', m.after n = some m' ∧ q.machine.bare = m'.bare
  count : xs.length ≤ n
  rest : xs.length = n ∨ (q.machine.halted = true ∧ ∃ fuel, Call.run fuel ∈ calls)
  shown : ∀ k i x, xs[k]? = some (i, x) → ∃ s reach m₁ m₂ c, q.steppers[i]? = some s ∧
    s.reach = .ok reach ∧ m.after k = some m₁ ∧ m₁.cycle = (m₂, .ok c) ∧
    x = m₂.snapshot (some c.toString) reach

/-- A call that leaves the machine alone may come first. -/
theorem Follows.stays {calls : List Call} {xs : List (Nat × Snapshot)} (h : Follows m calls q xs n)
    (c : Call) : Follows m (c :: calls) q xs n := by
  refine ⟨h.machine, h.count, ?_, h.shown⟩
  obtain hlength | ⟨hm, fuel, hfuel⟩ := h.rest
  · exact Or.inl hlength
  · exact Or.inr ⟨hm, fuel, List.mem_cons_of_mem _ hfuel⟩

/-- A cycle may come first, which is shown first. -/
theorem Follows.cycle {calls : List Call} {xs : List (Nat × Snapshot)} {c : Instruction}
    (hc : m.cycle = (m', .ok c)) (h : Follows m' calls q xs n) (hs : q.steppers[i]? = some s)
    (hr : s.reach = .ok reach) (d : Call) :
    Follows m (d :: calls) q ((i, m'.snapshot (some c.toString) reach) :: xs) (n + 1) := by
  obtain ⟨m₁, hn, hbare⟩ := h.machine
  have hafter : m.after (n + 1) = some m₁ := by rw [Machine.after_succ hc, hn]
  refine ⟨⟨m₁, hafter, hbare⟩, Nat.succ_le_succ h.count, ?_, ?_⟩
  · obtain hlength | ⟨hm, fuel, hfuel⟩ := h.rest
    · exact Or.inl (congrArg Nat.succ hlength)
    · exact Or.inr ⟨hm, fuel, List.mem_cons_of_mem _ hfuel⟩
  · intro k j x hk
    cases k with
    | zero =>
      obtain ⟨rfl, rfl⟩ := Prod.mk.inj (Option.some.inj hk)
      exact ⟨s, reach, m, m', c, hs, hr, rfl, hc, rfl⟩
    | succ k =>
      obtain ⟨t, reach, m₂, m₃, c, ht, htreach, hm₂, hcycle, hx⟩ := h.shown k j x hk
      have hafter : m.after (k + 1) = some m₂ := by rw [Machine.after_succ hc, hm₂]
      exact ⟨t, reach, m₂, m₃, c, ht, htreach, hafter, hcycle, hx⟩

/-- A run may come first. The machine has halted behind it, so that no cycle can follow. -/
theorem Follows.run {calls : List Call} {xs : List (Nat × Snapshot)} {k : Nat} {m₁ : Machine}
    (hend : m.Ends k m' (.ok ())) (hbare : m'.bare = m₁.bare) (h : Follows m₁ calls q xs n) (fuel : Nat) :
    Follows m (.run fuel :: calls) q xs k := by
  cases hend with
  | halts hk hm =>
    have hm₁ : m₁.halted = true := by rw [← Machine.halted_bare hbare, hm]
    obtain ⟨m₂, hn, hbare₂⟩ := h.machine
    -- a machine that has halted makes no further cycle, and so nothing more is shown
    have hzero : n ≤ 0 := (Machine.Ends.halts rfl hm₁).le_of_after hn
    obtain rfl : n = 0 := Nat.le_zero.mp hzero
    obtain rfl := Option.some.inj hn
    have hnil : xs = [] := List.length_eq_zero_iff.mp (Nat.le_zero.mp h.count)
    have hhalted : q.machine.halted = true := by rw [Machine.halted_bare hbare₂, hm₁]
    subst hnil
    constructor
    · exact ⟨m', hk, hbare₂.trans hbare.symm⟩
    · exact Nat.zero_le k
    · exact Or.inr ⟨hhalted, fuel, List.mem_cons_self⟩
    · intro j i x hx
      cases hx

theorem follows_of_smooth (hv : q.machine.program.validate = .ok ()) (ht : q.Told) (calls : List Call)
    (hs : Smooth (q.answers calls)) :
    ∃ n, Follows q.machine calls (q.after calls) ((q.answers calls).filterMap instructionShown) n := by
  induction calls generalizing q with
  | nil =>
    refine ⟨0, ⟨q.machine, rfl, rfl⟩, Nat.le_refl 0, Or.inl rfl, ?_⟩
    intro k i x hk
    cases hk
  | cons c calls ih =>
    have hfirst : ∀ e, (q.call c).2 = .raised e → e = .fault .stepperExhausted := by
      intro e he
      apply hs c e
      rw [answers_cons, he]
      exact List.mem_cons_self
    have hlater : Smooth ((q.call c).1.answers calls) := by
      intro d e h
      exact hs d e (List.mem_cons_of_mem _ h)
    have hvalid := (q.call_sameSettings c).validate hv
    have hmoves := moves_of_smooth hv ht c hfirst
    obtain ⟨n, hn⟩ := ih hvalid (ht.call c) hlater
    generalize hr : q.call c = r at hmoves hn
    rw [after_cons, answers_cons, hr]
    cases hmoves with
    | stays hm hx =>
      rw [hm] at hn
      rw [List.filterMap_cons_none hx]
      exact ⟨n, hn.stays c⟩
    | @cycles i s reach c _ hget hreach hc hx =>
      obtain ⟨t, hget, htreach, -⟩ := exists_stepper_call hget (.next i)
      rw [hr] at hget
      obtain ⟨u, hu, hureach⟩ := exists_stepper_after hget calls
      have hureach : u.reach = .ok reach := by rw [hureach, htreach, hreach]
      rw [List.filterMap_cons_some hx]
      exact ⟨n + 1, hn.cycle hc hu hureach _⟩
    | @runs fuel k m' _ hend hbare hx =>
      rw [List.filterMap_cons_none hx]
      exact ⟨k, hn.run hend hbare fuel⟩

/-- The answers to a stepper that has a machine for itself. -/
theorem answers_alone (hv : m.program.validate = .ok ()) (hr : s.reach = .ok reach)
    (hs : s.phase ≠ .spent) {k : Nat} {m₁ m₂ : Machine} {c : Instruction} (hk : m.after k = some m₁)
    (hc : m₁.cycle = (m₂, .ok c)) (hn : k < n) :
    (answers ⟨m, [s]⟩ (List.replicate n (.next 0)))[k]? =
      some (.next 0, .shown (m₂.snapshot (some c.toString) reach)) := by
  have hsteps : ∀ {m : Machine} {s : Stepper}, m.program.validate = .ok () → s.reach = .ok reach →
      Steps ⟨m, [s]⟩ 0 s reach := fun hv hr => steps_of_valid hv rfl hr
  induction k generalizing m s n with
  | zero =>
    obtain rfl := Option.some.inj hk
    cases n with
    | zero => cases hn
    | succ n =>
      rw [List.replicate_succ, answers_cons, (hsteps hv hr).cycles _ _ hs hc]
      rfl
  | succ k ih =>
    cases n with
    | zero => cases hn
    | succ n =>
      obtain ⟨m', c', hc', hk⟩ := Machine.exists_cycle_of_after_succ hk
      have hvalid := (Machine.SameSettings.of_cycle hc').validate hv
      rw [List.replicate_succ, answers_cons, (hsteps hv hr).cycles _ _ hs hc', List.getElem?_cons_succ]
      exact ih (s := { s with phase := .walking }) hvalid hr nofun hk (by omega)

structure SameEnd (m : Machine) (q : Pool) (r : Except Stop Unit) (t : Machine) : Prop where
  run : (∃ fuel m', q.machine.run fuel = (m', r) ∧ m'.bare = t) ↔
    ∃ fuel m', m.run fuel = (m', r) ∧ m'.bare = t
  drain : ∀ s ∈ q.steppers, s.phase ≠ .spent →
    ((∃ fuel, (s.drain fuel q.machine).machine.bare = t ∧
      (s.drain fuel q.machine).shown.map (fun _ => ()) = r) ↔
    ∃ fuel m', m.run fuel = (m', r) ∧ m'.bare = t)

theorem sameEnd_of_after (hv : m.program.validate = .ok ()) (ht : q.Told) (hn : m.after n = some m')
    (hbare : q.machine.bare = m'.bare) {r : Except Stop Unit} (hr : r ≠ .error .unfinished)
    (t : Machine) : SameEnd m q r t := by
  have hprogram := Machine.program_bare hbare
  have hvalid := (Machine.after_sameSettings hn).validate hv
  rw [← hprogram] at hvalid
  have hends := Machine.exists_ends_iff (r := r) hn hbare t
  constructor
  · rw [Machine.exists_run_iff hvalid hr t, Machine.exists_run_iff hv hr t, hends]
  · intro s hs hlive
    obtain ⟨reach, hreach⟩ := ht s hs
    rw [Stepper.exists_drain_iff hvalid hreach hlive hr t, Machine.exists_run_iff hv hr t, hends]

/-- The snapshots behind instructions that calls show, in their order, with the positions of the steppers. -/
def instructionsShown (m : Machine) (calls : List Call) : List (Nat × Snapshot) :=
  (answers ⟨m, []⟩ calls).filterMap instructionShown

/-- How a pool stands to the machine `m` that it began with, `n` cycles later. It is where `n` cycles bring
the machine. The snapshots shown are those of the first cycles, in their order, as one stepper alone would
have shown them, but for the part of the tape where it looks at another one; only a run leaves some out,
and behind it there are none. Runs and steppers go on to the end of a run of `m`. -/
structure Retraces (m : Machine) (calls : List Call) (q : Pool) (n : Nat) : Prop where
  machine : ∃ m', m.after n = some m' ∧ q.machine.bare = m'.bare
  steps : q.machine.steps = m.steps + n
  count : (instructionsShown m calls).length = n ∨
    ((instructionsShown m calls).length ≤ n ∧ q.machine.halted = true ∧ ∃ fuel, Call.run fuel ∈ calls)
  shown : ∀ (k i : Nat) (x : Snapshot), (instructionsShown m calls)[k]? = some (i, x) →
    ∃ s, q.steppers[i]? = some s ∧ ∀ reach : Int, ∃ y : Snapshot,
      (answers ⟨m, [{ reach := .ok reach }]⟩ (List.replicate n (.next 0)))[k]? =
        some (.next 0, .shown y) ∧
      y.blind = x.blind ∧ (s.reach = .ok reach → y = x)
  ends : ∀ r t, r ≠ .error .unfinished → SameEnd m q r t

/-- Steppers and runs may share a machine in any order. Every step of a live stepper is one cycle, shown
right behind it, or the one snapshot of a machine that has halted; behind that snapshot and behind a
failure nothing more comes of the stepper. While nothing fails, all of them together retrace the cycles of
the machine. -/
theorem interleaving (hv : m.program.validate = .ok ()) (calls : List Call) :
    (∀ i s, (after ⟨m, []⟩ calls).steppers[i]? = some s →
        ∃ reach, s.reach = .ok reach ∧ (after ⟨m, []⟩ calls).Steps i s reach) ∧
      (∀ xs ys i y, answers ⟨m, []⟩ calls = xs ++ (.next i, y) :: ys → y.Last →
        ∀ y', (Call.next i, y') ∈ ys → y' = .raised (.fault .stepperExhausted)) ∧
      (Smooth (answers ⟨m, []⟩ calls) → ∃ n, Retraces m calls (after ⟨m, []⟩ calls) n) := by
  have htold : Told ⟨m, []⟩ := fun s hs => by cases hs
  have hafter : ∀ calls, (after ⟨m, []⟩ calls).machine.program.validate = .ok () ∧
      (after ⟨m, []⟩ calls).Told := by
    intro calls
    refine Calls.after_induction (P := fun q : Pool => q.machine.program.validate = .ok () ∧ q.Told)
      ?_ ⟨hv, htold⟩ calls
    intro q c h
    exact ⟨(q.call_sameSettings c).validate h.1, h.2.call c⟩
  refine ⟨?_, ?_, ?_⟩
  · intro i s hs
    obtain ⟨hvalid, ht⟩ := hafter calls
    obtain ⟨reach, hr⟩ := ht s (List.mem_of_getElem? hs)
    exact ⟨reach, hr, steps_of_valid hvalid hs hr⟩
  · intro xs ys i y hsplit hlast
    obtain ⟨cs, ds, -, rfl, rfl⟩ := Calls.exists_calls_of_answers hsplit
    obtain ⟨hvalid, ht⟩ := hafter cs
    obtain ⟨s, hs, hspent⟩ := spent_of_last hvalid ht hlast
    exact answers_of_spent hs hspent ds
  · intro hsmooth
    obtain ⟨n, hfollows⟩ := follows_of_smooth hv htold calls hsmooth
    obtain ⟨m', hn, hbare⟩ := hfollows.machine
    have hsteps : (after ⟨m, []⟩ calls).machine.steps = m'.steps :=
      congrArg Workspace.steps (Machine.workspace_bare hbare)
    refine ⟨n, ⟨m', hn, hbare⟩, ?_, ?_, ?_, ?_⟩
    · rw [hsteps, Machine.after_steps hn]
    · obtain hlength | hleft := hfollows.rest
      · exact Or.inl hlength
      · exact Or.inr ⟨hfollows.count, hleft⟩
    · intro k i x hk
      obtain ⟨s, w, m₁, m₂, c, hs, hr, hm₁, hc, rfl⟩ := hfollows.shown k i x hk
      have hlt : k < n := Nat.lt_of_lt_of_le (List.getElem?_eq_some_iff.mp hk).1 hfollows.count
      refine ⟨s, hs, ?_⟩
      intro reach
      have halone := answers_alone (s := { reach := .ok reach }) hv rfl nofun hm₁ hc hlt
      refine ⟨_, halone, rfl, ?_⟩
      intro hreach
      rw [Except.ok.inj (hr.symm.trans hreach)]
    · intro r t hr
      exact sameEnd_of_after hv (hafter calls).2 hn hbare hr t

/-- Four instructions on two cells. -/
def fourSteps : Machine where
  program := .ofSource "+>-<"
  tape := ⟨0, 255, 0, #[0, 0]⟩
  input := ⟨[], .exhausted⟩
  sink := .empty .buffer

/-- Two steppers take a step each, a run the two steps left, and then both steppers see the end. -/
def sharedCalls : List Call :=
  [.make 0, .next 0, .make 1, .next 1, .run 3, .next 0, .next 0, .next 1]

theorem interleaving_four_steps :
    fourSteps.program.validate = .ok () ∧ Smooth (answers ⟨fourSteps, []⟩ sharedCalls) ∧
      Retraces fourSteps sharedCalls (after ⟨fourSteps, []⟩ sharedCalls) 4 := by
  have hv : fourSteps.program.validate = .ok () := rfl
  have hsmooth : Smooth (answers ⟨fourSteps, []⟩ sharedCalls) := by
    intro c e h
    change _ ∈ [(_, Reply.nothing), (_, Reply.shown _), (_, Reply.nothing), (_, Reply.shown _),
      (_, Reply.nothing), (_, Reply.shown _), (_, Reply.raised (.fault .stepperExhausted)),
      (_, Reply.shown _)] at h
    simp at h
    exact h.2
  obtain ⟨-, -, hretraces⟩ := interleaving hv sharedCalls
  obtain ⟨n, hn⟩ := hretraces hsmooth
  have hsteps : (4 : Int) = 0 + n := hn.steps
  obtain rfl : n = 4 := by omega
  exact ⟨hv, hsmooth, hn⟩

end Brainfuck.Pool
