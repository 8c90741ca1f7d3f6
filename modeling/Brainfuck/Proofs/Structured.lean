import Brainfuck.Proofs.Evaluation
import Brainfuck.Proofs.Run

/-! Structured programs. The machine, which finds the ends of its loops by walking, comes to what the
evaluation of the block of its program comes to. -/
namespace Brainfuck

namespace Block

/-- Where the instruction pointer stands before a block at a position is evaluated: there, or in front
of a loop also at its closing bracket, which tests the cell in the same way. -/
def Entry (i : Int) : Block → Int → Prop
  | loop body _, ip => ip = i ∨ ip = i + 1 + body.flatten.length
  | _, ip => ip = i

theorem entry_self (b : Block) (i : Int) : b.Entry i i := by
  cases b with
  | loop body rest => exact Or.inl rfl
  | _ => rfl

end Block

namespace Machine

/-- A machine without a step limit that is about to evaluate a block at a position. -/
structure Ready (m : Machine) (b : Block) (i : Int) : Prop where
  holds : m.program.Holds i b.flatten
  entry : b.Entry i m.instructionPointer
  unlimited : m.maxSteps = none
  valid : m.workspace.Valid

/-- Cycles lead to a position, or to a cycle that fails inside the program. -/
inductive Leads (m : Machine) (n : Nat) (i : Int) (t : Workspace) : Except Stop Unit → Prop where
  | arrives {m' : Machine} (hn : m.after n = some m') (ht : m'.workspace = t)
      (hi : m'.instructionPointer = i) : Leads m n i t (.ok ())
  | fails {m₁ m' : Machine} {e : Stop} (hn : m.after n = some m₁) (hm : m₁.halted = false)
      (he : m₁.cycle = (m', .error e)) (ht : m'.workspace = t) : Leads m n i t (.error e)

section Simulation
variable {m m₁ : Machine} {b body rest : Block} {i j : Int} {n k : Nat} {t : Workspace}
  {r : Except Stop Unit}

theorem Leads.after (h : m₁.Leads k i t r) (hn : m.after n = some m₁) : m.Leads (n + k) i t r := by
  cases h with
  | arrives hk ht hi => exact .arrives (by rw [after_add hn, hk]) ht hi
  | fails hk hm he ht => exact .fails (by rw [after_add hn, hk]) hm he ht

theorem Leads.cycle {c : Instruction} (h : m₁.Leads n i t r) (hc : m.cycle = (m₁, .ok c)) :
    m.Leads (n + 1) i t r := by
  rw [Nat.add_comm]
  exact h.after (after_one hc)

theorem Ready.limitReached (h : m.Ready b i) : m.limitReached = false := by
  simp [Machine.limitReached, h.unlimited]

/-- A machine that has come to a block of its program is ready for it. -/
theorem Ready.of_after (h : m.Ready b i) (hn : m.after n = some m₁)
    (hholds : m.program.Holds j body.flatten) (hentry : body.Entry j m₁.instructionPointer)
    (hv : m₁.workspace.Valid) : m₁.Ready body j := by
  have hsame := after_sameSettings hn
  exact ⟨by rw [hsame.program]; exact hholds, hentry, by rw [hsame.maxSteps, h.unlimited], hv⟩

theorem Ready.action_ok {a : Action} (h : m.Ready (.action a rest) i)
    (ha : a.perform m.workspace = (t, .ok ())) :
    ∃ m₁ c, m.cycle = (m₁, .ok c) ∧ m₁.workspace = t.tick ∧ m₁.Ready rest (i + 1) := by
  have hi : m.instructionPointer = i := h.entry
  have hhead := h.holds.head
  rw [← hi] at hhead
  obtain ⟨m₁, hc, ht, hip⟩ := cycle_action_ok h.valid h.limitReached hhead ha
  refine ⟨m₁, _, hc, ht, h.of_after (after_one hc) h.holds.tail ?_ ?_⟩
  · rw [hip, hi]
    exact rest.entry_self _
  · rw [ht]
    exact (h.valid.of_perform ha).tick

theorem Ready.action_error {a : Action} {e : Stop} (h : m.Ready (.action a rest) i)
    (ha : a.perform m.workspace = (t, .error e)) : m.Leads 0 j t (.error e) := by
  have hi : m.instructionPointer = i := h.entry
  have hhead := h.holds.head
  rw [← hi] at hhead
  obtain ⟨m₁, hc, ht, -⟩ := cycle_action_error h.valid h.limitReached hhead ha
  exact .fails rfl (not_halted_of_inside (Program.instructionAt_ok hhead).2) hc ht

/-- The test of a loop leads behind it or into its body. -/
theorem Ready.loop_test (h : m.Ready (.loop body rest) i) :
    ∃ m₁ c, m.cycle = (m₁, .ok c) ∧ m₁.workspace = m.workspace.tick ∧
      (m.workspace.current = 0 → m₁.Ready rest (i + 1 + body.flatten.length + 1)) ∧
      (m.workspace.current ≠ 0 → m₁.Ready body (i + 1)) := by
  obtain ⟨m₁, c, hc, ht, hip⟩ := cycle_test h.valid h.limitReached h.holds h.entry
  have hv : m₁.workspace.Valid := by
    rw [ht]
    exact h.valid.tick
  refine ⟨m₁, c, hc, ht, fun hz => ?_, fun hz => ?_⟩
  · rw [if_pos hz] at hip
    refine h.of_after (after_one hc) h.holds.tail.right.tail ?_ hv
    rw [hip]
    exact rest.entry_self _
  · rw [if_neg hz] at hip
    refine h.of_after (after_one hc) h.holds.tail.left ?_ hv
    rw [hip]
    exact body.entry_self _

/-- Behind a turn a machine is ready for the loop again. -/
theorem Ready.turned (h : m.Ready (.loop body rest) i) (hn : m.after n = some m₁)
    (hi : m₁.instructionPointer = i + 1 + body.flatten.length) (hv : m₁.workspace.Valid) :
    m₁.Ready (.loop body rest) i :=
  h.of_after hn h.holds (Or.inr hi) hv

theorem length_flatten_action (i : Int) (a : Action) (rest : Block) :
    i + (Block.action a rest).flatten.length = i + 1 + rest.flatten.length := by
  simp only [Block.flatten, List.length_cons]
  omega

theorem length_flatten_loop (i : Int) (body rest : Block) :
    i + (Block.loop body rest).flatten.length =
      i + 1 + body.flatten.length + 1 + rest.flatten.length := by
  simp only [Block.flatten, List.length_cons, List.length_append]
  omega

/-- A machine that is ready for a block comes to what the block evaluates to. -/
theorem Ready.leads {s : Workspace} (h : b.Evaluates s t r) (hm : m.Ready b i)
    (hs : m.workspace = s) : ∃ n, m.Leads n (i + b.flatten.length) t r := by
  induction h generalizing m i with
  | @done s =>
    have hi : m.instructionPointer = i := hm.entry
    exact ⟨0, .arrives rfl hs (by simp [Block.flatten, hi])⟩
  | action ha hrest ih =>
    subst hs
    obtain ⟨m₁, c, hc, ht, hready⟩ := hm.action_ok ha
    obtain ⟨n, hn⟩ := ih hready ht
    rw [length_flatten_action]
    exact ⟨n + 1, hn.cycle hc⟩
  | actionFails ha =>
    subst hs
    exact ⟨0, hm.action_error ha⟩
  | loopEnds hz hrest ih =>
    subst hs
    obtain ⟨m₁, c, hc, ht, hready, -⟩ := hm.loop_test
    obtain ⟨n, hn⟩ := ih (hready hz) ht
    rw [length_flatten_loop]
    exact ⟨n + 1, hn.cycle hc⟩
  | loopTurns hz hbody hagain ihb ih =>
    subst hs
    obtain ⟨m₁, c, hc, ht, -, hready⟩ := hm.loop_test
    obtain ⟨n, hn⟩ := ihb (hready hz) ht
    cases hn.cycle hc with
    | arrives hn ht hi =>
      have hv := hbody.valid hm.valid.tick
      rw [← ht] at hv
      obtain ⟨k, hk⟩ := ih (hm.turned hn hi hv) ht
      exact ⟨n + 1 + k, hk.after hn⟩
  | loopFails hz hbody ih =>
    subst hs
    obtain ⟨m₁, c, hc, ht, -, hready⟩ := hm.loop_test
    obtain ⟨n, hn⟩ := ih (hready hz) ht
    cases hn.cycle hc with
    | fails hn hm he ht => exact ⟨n + 1, .fails hn hm he ht⟩

/-- A machine evaluates a block within some number of cycles, or it still runs when it has made them. -/
def Progress (m : Machine) (b : Block) (i : Int) (n : Nat) : Prop :=
  (∃ k ≤ n, ∃ t r, b.Evaluates m.workspace t r ∧ m.Leads k (i + b.flatten.length) t r) ∨
    ∃ m', m.after n = some m' ∧ m'.halted = false

/-- Progress with what is left of a block is progress with the block. -/
theorem Progress.after (h : m₁.Progress rest j n) (hk : m.after k = some m₁)
    (hb : ∀ t r, rest.Evaluates m₁.workspace t r → b.Evaluates m.workspace t r)
    (hlen : i + b.flatten.length = j + rest.flatten.length) : m.Progress b i (k + n) := by
  obtain ⟨l, hl, t, r, hrest, hleads⟩ | ⟨m', hm', hrun⟩ := h
  · refine Or.inl ⟨k + l, Nat.add_le_add_left hl k, t, r, hb t r hrest, ?_⟩
    rw [hlen]
    exact hleads.after hk
  · exact Or.inr ⟨m', by rw [after_add hk, hm'], hrun⟩

/-- A machine that is ready for a block makes progress. All but the empty block take a cycle, so the
induction is on the number of cycles. -/
theorem Ready.progress (n : Nat) (hm : m.Ready b i) : m.Progress b i n := by
  induction n using Nat.strongRecOn generalizing m b i with
  | ind n ih =>
    cases b with
    | done =>
      have hi : m.instructionPointer = i := hm.entry
      exact Or.inl ⟨0, Nat.zero_le n, _, _, .done, .arrives rfl rfl (by simp [Block.flatten, hi])⟩
    | action a rest =>
      rcases ha : a.perform m.workspace with ⟨t, e | u⟩
      · exact Or.inl ⟨0, Nat.zero_le n, t, _, .actionFails ha, hm.action_error ha⟩
      · obtain ⟨m₁, c, hc, ht, hready⟩ := hm.action_ok ha
        cases n with
        | zero => exact Or.inr ⟨m, rfl, not_halted_of_cycle_ok hc⟩
        | succ n =>
          rw [Nat.add_comm]
          refine (ih n (Nat.lt_succ_self n) hready).after (after_one hc) (fun t' r hrest => ?_)
            (length_flatten_action i a rest)
          rw [ht] at hrest
          exact .action ha hrest
    | loop body rest =>
      obtain ⟨m₁, c, hc, ht, hbehind, hinside⟩ := hm.loop_test
      cases n with
      | zero => exact Or.inr ⟨m, rfl, not_halted_of_cycle_ok hc⟩
      | succ n =>
        by_cases hz : m.workspace.current = 0
        · rw [Nat.add_comm]
          refine (ih n (Nat.lt_succ_self n) (hbehind hz)).after (after_one hc) (fun t r hrest => ?_)
            (length_flatten_loop i body rest)
          rw [ht] at hrest
          exact .loopEnds hz hrest
        · obtain ⟨k, hk, t, r, hbody, hleads⟩ | ⟨m', hm', hrun⟩ :=
            ih n (Nat.lt_succ_self n) (hinside hz)
          · rw [ht] at hbody
            cases hleads.cycle hc with
            | fails hn hm₂ he ht =>
              exact Or.inl ⟨k + 1, Nat.succ_le_succ hk, t, _, .loopFails hz hbody, .fails hn hm₂ he ht⟩
            | arrives hn ht' hi =>
              have hv := hbody.valid hm.valid.tick
              rw [← ht'] at hv
              -- the loop is no smaller behind a turn, but fewer cycles are left for it
              rw [show n + 1 = k + 1 + (n - k) by omega]
              refine (ih (n - k) (by omega) (hm.turned hn hi hv)).after hn (fun t' r hagain => ?_) rfl
              rw [ht'] at hagain
              exact .loopTurns hz hbody hagain
          · exact Or.inr ⟨m', by rw [after_succ hc, hm'], hrun⟩

end Simulation

/-- From the beginning of a program, cycles end as its block evaluates. -/
theorem ends_iff_evaluates {m : Machine} {b : Block} (hm : m.Ready b 0)
    (hb : m.program.code.toList = b.flatten) (t : Workspace) (r : Except Stop Unit) :
    (∃ n m', m.Ends n m' r ∧ m'.workspace = t) ↔ b.Evaluates m.workspace t r := by
  have hsize : m.program.size = b.flatten.length := by
    rw [← hb, Array.length_toList]
    rfl
  have hends : ∀ {n t r}, m.Leads n (0 + b.flatten.length) t r →
      ∃ m', m.Ends n m' r ∧ m'.workspace = t := by
    intro n t r h
    cases h with
    | fails hn hm he ht => exact ⟨_, .fails hn hm he, ht⟩
    | @arrives m' hn ht hi =>
      have hhalted : m'.halted = true := by
        rw [halted, (after_sameSettings hn).program, hsize, hi, Int.zero_add]
        exact decide_eq_true (Int.le_refl _)
      exact ⟨m', .halts hn hhalted, ht⟩
  constructor
  · rintro ⟨n, m', hn, rfl⟩
    obtain ⟨k, -, t, r', hb, hleads⟩ | ⟨m₂, hm₂, -⟩ := hm.progress (n + 1)
    · obtain ⟨m₁, hm₁, rfl⟩ := hends hleads
      obtain ⟨-, rfl, rfl⟩ := hn.unique hm₁
      exact hb
    · rw [hn.after_eq_none] at hm₂
      cases hm₂
  · intro h
    obtain ⟨n, hn⟩ := Ready.leads h hm rfl
    exact ⟨n, hends hn⟩

end Machine

/-- A program without a step limit does what its block does. Its instructions are those of exactly one
block, its run ends where the evaluation of the block ends, and fails where it fails. -/
theorem run_iff_evaluates (source : String) (hne : (Program.ofSource source).code ≠ #[])
    (hb : Balanced (Program.ofSource source).code.toList) :
    ∃ b : Block, b.flatten = (Program.ofSource source).code.toList ∧
      (∀ b' : Block, b'.flatten = (Program.ofSource source).code.toList → b' = b) ∧
      (∀ m : Machine, m.program = .ofSource source → m.instructionPointer = 0 → m.maxSteps = none →
        m.tape.Valid → 0 ≤ m.dataPointer → m.dataPointer < m.tape.size → m.input.Integral →
        ∀ t : Workspace,
          ((∃ fuel m', m.run fuel = (m', .ok ()) ∧ m'.workspace = t) ↔
            b.Evaluates m.workspace t (.ok ())) ∧
          ∀ f, (∃ fuel m', m.run fuel = (m', .error (.fault f)) ∧ m'.workspace = t) ↔
            b.Evaluates m.workspace t (.error (.fault f))) ∧
      ∀ (body : Block) (s u : Workspace), (Block.loop body .done).Evaluates s u (.ok ()) ↔
        ∃ ts, Block.Turns body s ts u ∧ u.steps = s.steps + 1 + ts.length + Block.bodySteps s ts := by
  obtain ⟨b, hflat⟩ := (balanced_iff_exists_block _).mp hb
  refine ⟨b, hflat.symm, fun b' hb' => Block.flatten_injective (hb'.trans hflat), ?_,
    Block.evaluates_loop_iff⟩
  intro m hprogram hip hlimit htape hlo hhi hinput t
  have hcode : m.program.code.toList = b.flatten := by rw [hprogram, hflat]
  have hvalid : m.program.validate = .ok () := by
    rw [Program.validate_ok_iff, hprogram]
    exact ⟨by simpa using hne, b, hflat⟩
  have hready : m.Ready b 0 := by
    refine ⟨?_, ?_, hlimit, htape, hlo, hhi, hinput⟩
    · have := m.program.holds_zero
      rwa [hcode] at this
    · rw [hip]
      exact b.entry_self 0
  have hiff : ∀ r : Except Stop Unit, r ≠ .error .unfinished →
      ((∃ fuel m', m.run fuel = (m', r) ∧ m'.workspace = t) ↔ b.Evaluates m.workspace t r) := by
    intro r hr
    rw [← Machine.ends_iff_evaluates hready hcode t r]
    constructor
    · rintro ⟨fuel, m₁, hrun, rfl⟩
      obtain ⟨n, m', hn, hbare⟩ := Machine.ends_of_run hvalid hrun hr
      exact ⟨n, m', hn, Machine.workspace_bare hbare⟩
    · rintro ⟨n, m', hn, rfl⟩
      obtain ⟨m₁, hrun, hbare⟩ := Machine.run_of_ends hvalid hn
      exact ⟨n + 1, m₁, hrun, Machine.workspace_bare hbare⟩
  exact ⟨hiff _ (by simp), fun f => hiff _ (by simp)⟩

/-- Two turns around an inner loop that is skipped, on two cells. -/
def twoTurns : Machine where
  program := .ofSource "++[->[]<]"
  tape := ⟨0, 255, 0, #[0, 0]⟩
  input := ⟨[], .exhausted⟩
  sink := .empty .buffer

/-- They take two steps, the first test, and in each turn the four steps of the body and a test. -/
theorem run_iff_evaluates_two_turns :
    (Program.ofSource "++[->[]<]").code ≠ #[] ∧ Balanced (Program.ofSource "++[->[]<]").code.toList ∧
      ∃ b : Block, b.flatten = (Program.ofSource "++[->[]<]").code.toList ∧
        b.Evaluates twoTurns.workspace { twoTurns.workspace with steps := 13 } (.ok ()) := by
  have hne : (Program.ofSource "++[->[]<]").code ≠ #[] := by decide
  have hb : Balanced (Program.ofSource "++[->[]<]").code.toList := by decide
  obtain ⟨b, hflat, -, hrun, -⟩ := run_iff_evaluates "++[->[]<]" hne hb
  have htape : twoTurns.tape.Valid := ⟨by decide, by decide, by decide⟩
  have hinput : twoTurns.input.Integral := ⟨by simp [twoTurns], by simp [twoTurns]⟩
  have hresult : (twoTurns.run 13).2 = .ok () := by rfl
  have hworkspace : (twoTurns.run 13).1.workspace = { twoTurns.workspace with steps := 13 } := by rfl
  have hiff := (hrun twoTurns rfl rfl rfl htape (by decide) (by decide) hinput
    { twoTurns.workspace with steps := 13 }).1
  exact ⟨hne, hb, b, hflat, hiff.mp ⟨13, _, Prod.ext rfl hresult, hworkspace⟩⟩

end Brainfuck
