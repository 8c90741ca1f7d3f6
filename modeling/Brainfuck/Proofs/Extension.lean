import Brainfuck.Proofs.LockStep
import Brainfuck.Proofs.Safety

/-! Extension. Only a move around an end of the tape depends on how many cells there are: a machine that makes no such
move goes the same way on a longer tape, and the cells that it does not have keep their default there. -/
namespace Brainfuck

namespace Tape
variable {t t' : Tape}

def extended (t : Tape) (k : Nat) : Tape :=
  { t with cells := t.cells ++ Array.replicate k t.default }

@[simp] theorem extended_size (t : Tape) (k : Nat) : (t.extended k).size = t.size + k := by
  simp [extended, Tape.size]

@[simp] theorem extended_cell (t : Tape) (k : Nat) (q : Int) : (t.extended k).cell q = t.cell q := by
  unfold extended cell
  rw [Array.getElem?_append]
  split
  · rfl
  · next hq =>
    rw [Array.getElem?_eq_none (Nat.not_lt.mp hq), Array.getElem?_replicate]
    split <;> rfl

theorem Valid.extended (ht : t.Valid) (k : Nat) : (t.extended k).Valid := by
  refine ⟨?_, ht.default_mem, ?_⟩
  · rw [extended_size]
    exact Nat.add_pos_left ht.size_pos k
  · intro v hv
    obtain hv | hv := Array.mem_append.mp hv
    · exact ht.cell_mem v hv
    · obtain ⟨-, rfl⟩ := Array.mem_replicate.mp hv
      exact ht.default_mem

theorem set_extended {i : Nat} (hi : i < t.size) (k : Nat) (v : Int) :
    (t.extended k).set i v = (t.set i v).extended k := by
  simp only [set, extended, Array.setIfInBounds_append_left hi]

/-- A longer tape is made with more of the same cells. -/
theorem eq_extended_of_blank {layout : Layout} {room room' : Room} {n n' : Int} (hle : n ≤ n')
    (h : blank { layout with size := .ok n } room = .ok t) (h' : blank { layout with size := .ok n' } room' = .ok t') :
    t' = t.extended (n' - n).toNat := by
  obtain ⟨size, minimum, maximum, default, hlayout, hpos, -, rfl⟩ := blank_ok h
  obtain ⟨size', minimum', maximum', default', hlayout', -, -, rfl⟩ := blank_ok h'
  simp only [Layout.mk.injEq, Except.ok.injEq] at hlayout hlayout'
  obtain ⟨rfl, hmin, hmax, hdefault⟩ := hlayout
  obtain ⟨rfl, hmin', hmax', hdefault'⟩ := hlayout'
  obtain rfl := Except.ok.inj (hmin.symm.trans hmin')
  obtain rfl := Except.ok.inj (hmax.symm.trans hmax')
  obtain rfl := Except.ok.inj (hdefault.symm.trans hdefault')
  have hsize : n'.toNat = n.toNat + (n' - n).toNat := by omega
  rw [hsize, ← Array.replicate_append_replicate]
  rfl

end Tape

namespace Machine
variable {m m' m₁ : Machine} {c : Instruction} {n fuel : Nat}

def extended (m : Machine) (k : Nat) : Machine :=
  { m with tape := m.tape.extended k }

/-- Whether the next cycle moves the pointer around an end of the tape. -/
def wraps (m : Machine) : Bool :=
  match m.cycle.2 with
  | .ok .left => m.dataPointer = 0
  | .ok .right => m.dataPointer = m.tape.size - 1
  | _ => false

/-- A move that stays on the tape ends on the same cell, however many cells there are. -/
theorem move_extended {distance : Int} (k : Nat)
    (h : 0 ≤ m.dataPointer + distance ∧ m.dataPointer + distance < m.tape.size) :
    (m.extended k).move distance = (m.move distance).extended k := by
  have hsize : (m.extended k).tape.size = m.tape.size + k := Tape.extended_size _ _
  have hplace : (m.dataPointer + distance) % ↑(m.tape.size + k) = (m.dataPointer + distance) % m.tape.size := by
    rw [Int.emod_eq_of_lt h.1 h.2, Int.emod_eq_of_lt h.1 (by omega)]
  have hpointer : (m.extended k).dataPointer = m.dataPointer := rfl
  simp only [move, hsize, hpointer, hplace]
  rfl

section Valid
variable (hw : m.workspace.Valid) (k : Nat)
include hw

theorem extended_valid : (m.extended k).workspace.Valid := by
  refine ⟨hw.tape.extended k, hw.pointer_nonneg, ?_, hw.input⟩
  have hsize : (m.extended k).tape.size = m.tape.size + k := Tape.extended_size _ _
  have hlt : m.dataPointer < m.tape.size := hw.pointer_lt
  have hpointer : (m.extended k).workspace.pointer = m.dataPointer := rfl
  rw [hpointer, workspace, hsize]
  omega

theorem current_extended : (m.extended k).current = m.current := by
  have hcell : (m.extended k).workspace.current = m.workspace.current := Tape.extended_cell _ k _
  rw [current_ok (extended_valid hw k), current_ok hw, hcell]

theorem store_extended {v : Int} (hv : m.tape.minimum ≤ v ∧ v ≤ m.tape.maximum) :
    (m.extended k).store (.integer v) = ((m.store (.integer v)).1.extended k, (m.store (.integer v)).2) := by
  have hnonneg : 0 ≤ m.dataPointer := hw.pointer_nonneg
  have hlt : m.dataPointer < m.tape.size := hw.pointer_lt
  have hset : (m.extended k).tape.set m.dataPointer.toNat v = (m.tape.set m.dataPointer.toNat v).extended k :=
    Tape.set_extended (by omega) k v
  have hstore : (m.extended k).store (.integer v) = _ := store_integer (extended_valid hw k) hv
  rw [hstore, store_integer hw hv]
  exact Prod.ext (congrArg (fun tape => { m with tape }) hset) rfl

theorem update_extended {f : Tape → Int → Int} (hf : f (m.tape.extended k) = f m.tape)
    (hv : m.tape.minimum ≤ f m.tape m.workspace.current ∧ f m.tape m.workspace.current ≤ m.tape.maximum) :
    (m.extended k).update f = ((m.update f).1.extended k, (m.update f).2) := by
  refine update_changed (g := (extended · k)) (current_extended hw k) hf ?_
  intro v hcurrent
  obtain rfl := Except.ok.inj ((current_ok hw).symm.trans hcurrent)
  exact store_extended hw k hv

theorem receive_extended : (m.extended k).receive = (m.receive.1.extended k, m.receive.2) := by
  refine receive_changed (g := (extended · k)) rfl (fun _ _ => rfl) ?_
  rintro v x houtcome ⟨journal, rfl⟩
  obtain ⟨hvalid, n, rfl, hn⟩ := received hw journal houtcome
  exact store_extended hvalid k hn

theorem perform_extended (hleft : c = .left → m.dataPointer ≠ 0)
    (hright : c = .right → m.dataPointer ≠ m.tape.size - 1) :
    (m.extended k).perform c = ((m.perform c).1.extended k, (m.perform c).2) := by
  have hbetween := hw.current_between
  have hcurrent := current_extended hw k
  have hnonneg : 0 ≤ m.dataPointer := hw.pointer_nonneg
  have hlt : m.dataPointer < m.tape.size := hw.pointer_lt
  cases c with
  | right =>
    have hend := hright rfl
    exact Prod.ext (move_extended k (by omega)) rfl
  | left =>
    have hend := hleft rfl
    exact Prod.ext (move_extended k (by omega)) rfl
  | increment => exact update_extended hw k rfl (Tape.next_between hbetween)
  | decrement => exact update_extended hw k rfl (Tape.previous_between hbetween)
  | read => exact receive_extended hw k
  | write => exact send_changed (g := (extended · k)) hcurrent (fun _ => rfl) fun _ => rfl
  | loopOpen => exact jumpIf_changed (g := (extended · k)) hcurrent rfl rfl (fun _ => rfl) _ _
  | loopClose => exact jumpIf_changed (g := (extended · k)) hcurrent rfl rfl (fun _ => rfl) _ _

theorem cycle_extended (h : m.wraps = false) : (m.extended k).cycle = (m.cycle.1.extended k, m.cycle.2) := by
  refine cycle_changed (g := (extended · k)) rfl rfl rfl (fun _ => rfl) fun c hl hi => ?_
  -- moves do not fail, so that one that is about to be made is made
  refine perform_extended hw k ?_ ?_
  · rintro rfl hend
    rw [wraps, cycle_of_ok hl hi rfl] at h
    exact absurd hend (of_decide_eq_false h)
  · rintro rfl hend
    rw [wraps, cycle_of_ok hl hi rfl] at h
    exact absurd hend (of_decide_eq_false h)

end Valid

/-- A machine within its bounds that does not move around an end of the tape in any of the next `n` cycles. -/
structure Stays (m : Machine) (n : Nat) : Prop where
  valid : m.workspace.Valid
  within : ∀ k x, k < n → m.after k = some x → x.wraps = false

theorem Stays.later (h : m.Stays (n + 1)) (hc : m.cycle = (m₁, .ok c)) : m₁.Stays n := by
  have hvalid := cycle_valid h.valid
  rw [hc] at hvalid
  refine ⟨hvalid, ?_⟩
  intro k x hk hx
  exact h.within (k + 1) x (Nat.succ_lt_succ hk) (by rw [after_succ hc, hx])

theorem commutes_extended (k : Nat) : Commutes (extended · k) fun n m => m.Stays n where
  program _ := rfl
  halted _ := rfl
  cycle h _ := cycle_extended h.valid k (h.within 0 _ (Nat.succ_pos _) rfl)
  later h hc := h.later hc

/-- A machine that differs from another one in nothing but `k` more cells behind the others, which hold the default, and
in what it has noted. -/
structure Extended (k : Nat) (m m' : Machine) : Prop where
  program : m'.program = m.program
  input : m'.input = m.input
  sink : m'.sink = m.sink
  maxSteps : m'.maxSteps = m.maxSteps
  instructionPointer : m'.instructionPointer = m.instructionPointer
  dataPointer : m'.dataPointer = m.dataPointer
  steps : m'.steps = m.steps
  minimum : m'.tape.minimum = m.tape.minimum
  maximum : m'.tape.maximum = m.tape.maximum
  default : m'.tape.default = m.tape.default
  cells : m'.tape.cells.toList = m.tape.cells.toList ++ List.replicate k m.tape.default

theorem Extended.of_bare {k : Nat} (h : m'.bare = (m.extended k).bare) : m.Extended k m' := by
  obtain ⟨program, tape, input, sink, maxSteps, instructionPointer, dataPointer, steps, journal⟩ := m'
  simp only [bare, extended, Machine.mk.injEq] at h
  obtain ⟨rfl, rfl, rfl, rfl, rfl, rfl, rfl, rfl, -⟩ := h
  exact ⟨rfl, rfl, rfl, rfl, rfl, rfl, rfl, rfl, rfl, rfl, by simp [Tape.extended]⟩

/-- A run on a longer tape. What it notes at its start is another number of cells. -/
theorem run_extended (h : m.entered.Stays fuel) (k : Nat) :
    ((m.extended k).run fuel).2 = (m.run fuel).2 ∧ (m.run fuel).1.Extended k ((m.extended k).run fuel).1 := by
  cases hv : m.program.validate with
  | error f =>
    have hvalid : (m.extended k).program.validate = .error f := hv
    rw [run_of_invalid hv, run_of_invalid hvalid]
    exact ⟨rfl, .of_bare rfl⟩
  | ok u =>
    have hvalid : (m.extended k).program.validate = .ok () := hv
    have hbare : (m.extended k).entered.bare = (m.entered.extended k).bare := rfl
    obtain ⟨hmachine, hresult⟩ := loop_bare hbare fuel
    have hloop : loop fuel (m.entered.extended k) = _ := (commutes_extended k).loop h
    rw [hloop] at hmachine hresult
    rw [run_of_valid hv, run_of_valid hvalid]
    obtain ⟨hleave, houtcome⟩ := leave_bare (loop fuel m.entered).1 (loop fuel m.entered).2
    obtain ⟨hleave', houtcome'⟩ := leave_bare (loop fuel (m.extended k).entered).1 (loop fuel (m.extended k).entered).2
    refine ⟨by rw [houtcome, houtcome', hresult], .of_bare ?_⟩
    have hextended : ∀ x y : Machine, x.bare = y.bare → (x.extended k).bare = (y.extended k).bare := by
      intro x y hxy
      have hcongr : (x.bare.extended k).bare = (y.bare.extended k).bare := by rw [hxy]
      exact hcongr
    exact hleave'.trans (hmachine.trans (hextended _ _ hleave).symm)

/-- More cells make no difference to a program that never moves around an end of the tape, whatever the size, the range
and the default of its cells, its input, its sink and its step limit: behind every cycle the machine on the longer tape
is the other one with more cells, or neither gets that far, and runs have the same result and leave them so. -/
theorem run_on_more_cells {layout : Layout} {room room' : Room} {size size' : Int} {t t' : Tape} {program : Program}
    {input : Input} {sink : Sink} {limit : Option Int} (hle : size ≤ size')
    (ht : Tape.blank { layout with size := .ok size } room = .ok t)
    (ht' : Tape.blank { layout with size := .ok size' } room' = .ok t') (hi : input.Integral)
    (hm : start program t input sink limit = .ok m) (h : ∀ n x, m.after n = some x → x.wraps = false) :
    ∃ m', start program t' input sink limit = .ok m' ∧
      (∀ n, Option.Rel (Extended (size' - size).toNat) (m.after n) (m'.after n)) ∧
        ∀ fuel, (m'.run fuel).2 = (m.run fuel).2 ∧ (m.run fuel).1.Extended (size' - size).toNat (m'.run fuel).1 := by
  obtain rfl := Tape.eq_extended_of_blank hle ht ht'
  have hsafe := Safe.of_start (Tape.blank_valid ht) hi hm
  have hstart : start program (t.extended (size' - size).toNat) input sink limit =
      .ok (m.extended (size' - size).toNat) := by
    obtain ⟨rfl, hlimit⟩ := start_ok hm
    cases limit with
    | none => rfl
    | some n =>
      simp only [start]
      rw [if_neg (Int.not_lt.mpr (hlimit n rfl))]
      rfl
  refine ⟨_, hstart, ?_, ?_⟩
  · intro n
    have hafter := (commutes_extended (size' - size).toNat).after (n := n) ⟨hsafe.workspace, fun k x _ => h k x⟩
    rw [hafter]
    cases m.after n with
    | none => exact .none
    | some x => exact .some (.of_bare rfl)
  · intro fuel
    refine run_extended ⟨hsafe.workspace, ?_⟩ _
    intro k x _ hx
    -- the start of a run has been noted, which makes no difference to a cycle
    have hstart : m.entered.bare = m.bare := rfl
    obtain ⟨y, hy, hbare⟩ := after_bare hstart hx
    have hwraps : x.wraps = y.wraps := by
      obtain ⟨-, hresult⟩ := cycle_bare hbare
      have hworkspace := workspace_bare hbare
      have hpointer : x.dataPointer = y.dataPointer := congrArg Workspace.pointer hworkspace
      have htape : x.tape = y.tape := congrArg Workspace.tape hworkspace
      rw [wraps, wraps, hresult, hpointer, htape]
    rw [hwraps]
    exact h k y hy

/-- A machine that adds what it reads to the next cell. -/
def carrying (tape : Tape) : Machine where
  program := .ofSource ",[>+<-]>."
  tape
  input := .ofValues [.integer 7, .integer 2] none
  sink := .empty .buffer
  maxSteps := some 14

/-- It goes up to the last of two cells, and not beyond it, so that it may have four cells as well. -/
theorem run_on_more_cells_carrying :
    let layout : Layout := { minimum := .ok (-3), maximum := .ok 3 }
    ∃ t t', Tape.blank { layout with size := .ok 2 } (.upTo 2) = .ok t ∧
      Tape.blank { layout with size := .ok 4 } (.upTo 4) = .ok t' ∧ (carrying t).input.Integral ∧
      start (carrying t).program t (carrying t).input (carrying t).sink (some 14) = .ok (carrying t) ∧
      (∀ n x, (carrying t).after n = some x → x.wraps = false) ∧ ((carrying t).run 15).1.dataPointer = 1 ∧
      ((carrying t').run 15).2 = .ok () ∧ ((carrying t').run 15).1.tape.cells.toList = [0, 2, 0, 0] := by
  intro layout
  refine ⟨⟨-3, 3, 0, #[0, 0]⟩, ⟨-3, 3, 0, #[0, 0, 0, 0]⟩, rfl, rfl, ?_⟩
  generalize ht : (⟨-3, 3, 0, #[0, 0]⟩ : Tape) = t
  have hi : (carrying t).input.Integral := by
    constructor
    · intro v hv
      obtain rfl | hv := List.mem_cons.mp hv
      · exact ⟨7, rfl⟩
      · exact ⟨2, List.mem_singleton.mp hv⟩
    · intro v hv
      cases hv
  have hstays : ∀ n x, (carrying t).after n = some x → x.wraps = false := by
    intro n x hx
    have hlast : (carrying t).after 15 = none := by subst ht; rfl
    have hfew : ∀ n < 15, ((carrying t).after n).all (! wraps ·) = true := by subst ht; decide
    have hlt : n < 15 := by
      by_contra hge
      obtain ⟨y, hy⟩ := exists_after_of_le hx (Nat.not_lt.mp hge)
      cases hlast.symm.trans hy
    have hall := hfew n hlt
    rw [hx] at hall
    simpa using hall
  have hless : Tape.blank { layout with size := .ok 2 } (.upTo 2) = .ok t := by subst ht; rfl
  have hmore : Tape.blank { layout with size := .ok 4 } (.upTo 4) = .ok ⟨-3, 3, 0, #[0, 0, 0, 0]⟩ := rfl
  have hstart : start (carrying t).program t (carrying t).input (carrying t).sink (some 14) = .ok (carrying t) := rfl
  obtain ⟨m', hm', -, hrun⟩ := run_on_more_cells (by decide) hless hmore hi hstart hstays
  obtain ⟨hresult, hleft⟩ := hrun 15
  obtain rfl := Except.ok.inj hm'
  have hcells := hleft.cells
  subst ht
  exact ⟨hi, rfl, hstays, rfl, hresult, hcells⟩

end Machine

end Brainfuck
