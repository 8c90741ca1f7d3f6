import Mathlib.Data.List.Basic
import Brainfuck.Proofs.Transitions

/-! Straight-line programs. Where a program only moves the pointer and counts cells, a run carries out every instruction
once. It comes to what the instructions come to by their numbers: those that move, and, for every cell, those that count
while the pointer is there. -/
namespace Brainfuck

namespace Instruction

/-- The instructions that move the pointer or count the current cell. -/
def plain : List Instruction :=
  [.right, .left, .increment, .decrement]

def distance : Instruction → Int
  | right => 1
  | left => -1
  | _ => 0

def change : Instruction → Int
  | increment => 1
  | decrement => -1
  | _ => 0

inductive Opposite : Instruction → Instruction → Prop where
  | up : Opposite .increment .decrement
  | down : Opposite .decrement .increment
  | right : Opposite .right .left
  | left : Opposite .left .right

end Instruction

namespace StraightLine
variable {size p q : Int} {cs : List Instruction} {c x : Instruction} {k : Nat}

/-- How far instructions move the pointer in all: as far as they move it to the right more often than to the left. -/
def shift (cs : List Instruction) : Int :=
  cs.count .right - cs.count .left

/-- Where the pointer stands in front of the instruction with number `k`, from `p` on, on a tape of `size` cells. -/
def pointerAt (size p : Int) (cs : List Instruction) (k : Nat) : Int :=
  (p + shift (cs.take k)) % size

/-- How often an instruction is carried out while the pointer stands at `q`. -/
def timesAt (size p : Int) (cs : List Instruction) (q : Int) (x : Instruction) : Nat :=
  (List.range cs.length).countP fun k => cs[k]? = some x ∧ pointerAt size p cs k = q

def net (size p : Int) (cs : List Instruction) (q : Int) : Int :=
  timesAt size p cs q .increment - timesAt size p cs q .decrement

theorem shift_snoc (cs : List Instruction) (c : Instruction) : shift (cs ++ [c]) = shift cs + c.distance := by
  simp only [shift, List.count_append]
  cases c with
  | right => simp [Instruction.distance]; omega
  | left => simp [Instruction.distance]; omega
  | _ => simp [Instruction.distance]

theorem pointerAt_append (hk : k ≤ cs.length) (ds : List Instruction) :
    pointerAt size p (cs ++ ds) k = pointerAt size p cs k := by
  rw [pointerAt, List.take_append_of_le_length hk, pointerAt]

theorem pointerAt_length (cs : List Instruction) : pointerAt size p cs cs.length = (p + shift cs) % size := by
  rw [pointerAt, List.take_length]

/-- A further instruction is carried out once, where the pointer stands behind the others. -/
theorem timesAt_snoc : timesAt size p (cs ++ [c]) q x =
    timesAt size p cs q x + if c = x ∧ (p + shift cs) % size = q then 1 else 0 := by
  have hearlier : (List.range cs.length).countP (fun k =>
        (cs ++ [c])[k]? = some x ∧ pointerAt size p (cs ++ [c]) k = q) = timesAt size p cs q x := by
    refine List.countP_congr fun k hk => ?_
    have hlt := List.mem_range.mp hk
    rw [List.getElem?_append_left hlt, pointerAt_append (Nat.le_of_lt hlt)]
  rw [timesAt, List.length_append, List.length_singleton, List.range_succ, List.countP_append, hearlier,
    List.countP_singleton, List.getElem?_concat_length, pointerAt_append (Nat.le_refl _), pointerAt_length]
  simp only [Option.some.injEq, decide_eq_true_eq]

theorem net_snoc : net size p (cs ++ [c]) q =
    net size p cs q + if (p + shift cs) % size = q then c.change else 0 := by
  simp only [net, timesAt_snoc]
  by_cases hq : (p + shift cs) % size = q
  · cases c with
    | increment => simp [hq, Instruction.change]; omega
    | decrement => simp [hq, Instruction.change]; omega
    | _ => simp [hq, Instruction.change]
  · simp [hq]

end StraightLine

namespace Tape
variable {t : Tape} {v : Int}

def width (t : Tape) : Int :=
  t.maximum - t.minimum + 1

/-- The value `n` places behind the value `v`; the minimum comes behind the maximum. -/
def counted (t : Tape) (v n : Int) : Int :=
  t.minimum + (v - t.minimum + n) % t.width

theorem counted_counted (t : Tape) (v n k : Int) : t.counted (t.counted v n) k = t.counted v (n + k) := by
  have hvalue : t.counted v n - t.minimum + k = (v - t.minimum + n) % t.width + k := by
    rw [counted]
    omega
  rw [counted, hvalue, Int.emod_add_emod, counted, Int.add_assoc]

theorem counted_between (h : t.minimum ≤ t.maximum) (v n : Int) :
    t.minimum ≤ t.counted v n ∧ t.counted v n ≤ t.maximum := by
  have hwidth : t.width = t.maximum - t.minimum + 1 := rfl
  have hnonneg := Int.emod_nonneg (v - t.minimum + n) (show t.width ≠ 0 by omega)
  have hlt := Int.emod_lt_of_pos (v - t.minimum + n) (show 0 < t.width by omega)
  unfold counted
  omega

section Between
variable (hv : t.minimum ≤ v ∧ v ≤ t.maximum)
include hv

theorem counted_zero : t.counted v 0 = v := by
  have hwidth : v - t.minimum + 0 < t.width := by
    unfold width
    omega
  rw [counted, Int.emod_eq_of_lt (by omega) hwidth]
  omega

theorem next_eq_counted : t.next v = t.counted v 1 := by
  unfold next counted
  split
  · next hmax =>
    have hfull : v - t.minimum + 1 = t.width := by rw [hmax, width]
    rw [hfull, Int.emod_self, Int.add_zero]
  · next hmax =>
    have hwidth : v - t.minimum + 1 < t.width := by
      unfold width
      omega
    rw [Int.emod_eq_of_lt (by omega) hwidth]
    omega

theorem previous_eq_counted : t.previous v = t.counted v (-1) := by
  unfold previous counted
  split
  · next hmin =>
    -- one below nought is the greatest remainder
    have hlast : (v - t.minimum + -1) % t.width = t.width - 1 := by
      rw [← Int.add_emod_right, Int.emod_eq_of_lt]
      · omega
      · unfold width
        omega
      · omega
    rw [hlast, width]
    omega
  · next hmin =>
    have hwidth : v - t.minimum + -1 < t.width := by
      unfold width
      omega
    rw [Int.emod_eq_of_lt (by omega) hwidth]
    omega

end Between

theorem set_set (t : Tape) (i : Nat) (v w : Int) : (t.set i v).set i w = t.set i w := by
  simp only [set, Array.setIfInBounds_setIfInBounds]

theorem set_cell {t : Tape} {p : Int} (hp : 0 ≤ p) (hs : p < t.size) : t.set p.toNat (t.cell p) = t := by
  have hi : p.toNat < t.cells.size := by
    have hs : p < t.cells.size := hs
    omega
  have hcell : t.cell p = t.cells[p.toNat] := by
    rw [cell, Array.getElem?_eq_getElem hi, Option.getD_some]
  have hcells : t.cells.setIfInBounds p.toNat t.cells[p.toNat] = t.cells := by
    simp [Array.setIfInBounds, hi]
  rw [set, hcell, hcells]

end Tape

namespace Machine
variable {m m' x : Machine} {c d : Instruction} {cs : List Instruction} {k : Nat}

def worked (m : Machine) (c : Instruction) : Machine :=
  { m with
    dataPointer := (m.dataPointer + c.distance) % m.tape.size
    tape := m.tape.set m.dataPointer.toNat (m.tape.counted (m.tape.cell m.dataPointer) c.change) }

section Worked
variable (hp : m.Pointed) (ht : m.tape.Valid)
include hp

theorem Pointed.emod_eq : m.dataPointer % m.tape.size = m.dataPointer :=
  Int.emod_eq_of_lt hp.1 hp.2

theorem Pointed.worked (c : Instruction) : (m.worked c).Pointed := by
  have hpos : (0 : Int) < m.tape.size := Int.lt_of_le_of_lt hp.1 hp.2
  have hsize : (m.worked c).tape.size = m.tape.size := Tape.set_size _ _ _
  unfold Pointed
  rw [hsize]
  exact Tape.place_mem (Int.natCast_pos.mp hpos) _

include ht

theorem Pointed.worked_valid (c : Instruction) : (m.worked c).tape.Valid := by
  have hcell := ht.cell_between hp.1 hp.2
  exact ht.set _ (Tape.counted_between (Int.le_trans hcell.1 hcell.2) _ _)

theorem Pointed.worked_cell (c : Instruction) {q : Int} (hq : 0 ≤ q) (hs : q < m.tape.size) :
    (m.worked c).tape.cell q = m.tape.counted (m.tape.cell q) (if m.dataPointer = q then c.change else 0) := by
  by_cases hcurrent : m.dataPointer = q
  · subst hcurrent
    rw [if_pos rfl]
    exact Tape.cell_set hp.1 hp.2 _
  · rw [if_neg hcurrent, Tape.counted_zero (ht.cell_between hq hs)]
    exact Tape.cell_set_ne hp.1 hq (Ne.symm hcurrent) _

theorem Pointed.worked_of_change (hc : c.change = 0) : m.worked c = m.move c.distance := by
  have hkept : m.tape.set m.dataPointer.toNat (m.tape.counted (m.tape.cell m.dataPointer) 0) = m.tape := by
    rw [Tape.counted_zero (ht.cell_between hp.1 hp.2), Tape.set_cell hp.1 hp.2]
  rw [Machine.worked, hc, hkept]
  rfl

omit ht in
theorem Pointed.worked_of_distance (hc : c.distance = 0) : m.worked c =
    { m with tape := m.tape.set m.dataPointer.toNat (m.tape.counted (m.tape.cell m.dataPointer) c.change) } := by
  rw [Machine.worked, hc, Int.add_zero, hp.emod_eq]

/-- Counting a cell, forward or backward, never fails. -/
theorem Pointed.update_eq_worked {f : Tape → Int → Int} (hc : c.distance = 0)
    (hf : f m.tape (m.tape.cell m.dataPointer) = m.tape.counted (m.tape.cell m.dataPointer) c.change) :
    m.update f = (m.worked c, .ok ()) := by
  have hcell := ht.cell_between hp.1 hp.2
  have hread : m.current = .ok (m.tape.cell m.dataPointer) := Tape.read_integer hp.1 hp.2
  have hinside := Tape.counted_between (Int.le_trans hcell.1 hcell.2) (m.tape.cell m.dataPointer) c.change
  have htarget := Tape.target_integer hp.1 hp.2 hinside
  simp only [update, hread, hf, store, htarget, hp.worked_of_distance hc]

/-- A plain instruction does its work and nothing else. -/
theorem Pointed.perform_plain (hc : c ∈ Instruction.plain) : m.perform c = (m.worked c, .ok ()) := by
  have hcell := ht.cell_between hp.1 hp.2
  cases c with
  | right =>
    rw [hp.worked_of_change ht rfl]
    rfl
  | left =>
    rw [hp.worked_of_change ht rfl]
    rfl
  | increment => exact hp.update_eq_worked ht (f := Tape.next) rfl (Tape.next_eq_counted hcell)
  | decrement => exact hp.update_eq_worked ht (f := Tape.previous) rfl (Tape.previous_eq_counted hcell)
  | _ => simp [Instruction.plain] at hc

/-- What one move does, the opposite one undoes. -/
theorem Pointed.worked_moved (hc : c.change = 0) (hd : d.change = 0) (hback : c.distance + d.distance = 0) :
    (m.worked c).worked d = m := by
  have hsize : (m.worked c).tape.size = m.tape.size := Tape.set_size _ _ _
  have hback : ((m.dataPointer + c.distance) % m.tape.size + d.distance) % m.tape.size = m.dataPointer := by
    rw [Int.emod_add_emod, Int.add_assoc, hback, Int.add_zero, hp.emod_eq]
  rw [(hp.worked c).worked_of_change (hp.worked_valid ht c) hd, hp.worked_of_change ht hc]
  simp only [move, hback]

/-- What counting the cell does, counting it the other way undoes. -/
theorem Pointed.worked_counted (hc : c.distance = 0) (hd : d.distance = 0) (hback : c.change + d.change = 0) :
    (m.worked c).worked d = m := by
  have hcell := hp.worked_cell ht c hp.1 hp.2
  rw [if_pos rfl] at hcell
  have hpointer : (m.worked c).dataPointer = m.dataPointer := by rw [hp.worked_of_distance hc]
  have hcounted : ∀ v n, (m.worked c).tape.counted v n = m.tape.counted v n := fun _ _ => rfl
  have hset : ∀ v, (m.worked c).tape.set m.dataPointer.toNat v = m.tape.set m.dataPointer.toNat v := by
    intro v
    exact Tape.set_set _ _ _ v
  rw [(hp.worked c).worked_of_distance hd, hpointer, hcounted, hset, hcell, Tape.counted_counted, hback,
    Tape.counted_zero (ht.cell_between hp.1 hp.2), Tape.set_cell hp.1 hp.2, hp.worked_of_distance hc]

theorem Pointed.worked_opposite (h : c.Opposite d) : (m.worked c).worked d = m := by
  cases h with
  | up => exact hp.worked_counted ht rfl rfl rfl
  | down => exact hp.worked_counted ht rfl rfl rfl
  | right => exact hp.worked_moved ht rfl rfl rfl
  | left => exact hp.worked_moved ht rfl rfl rfl

end Worked

structure Nets (m : Machine) (cs : List Instruction) (x : Machine) : Prop where
  settings : m.SameSettings x
  pointed : x.Pointed
  valid : x.tape.Valid
  position : x.instructionPointer = m.instructionPointer + cs.length
  pointer : x.dataPointer = (m.dataPointer + StraightLine.shift cs) % m.tape.size
  cell : ∀ q : Int, 0 ≤ q → q < m.tape.size →
    x.tape.cell q = m.tape.counted (m.tape.cell q) (StraightLine.net m.tape.size m.dataPointer cs q)

theorem Nets.nil (hp : m.Pointed) (ht : m.tape.Valid) : m.Nets [] m := by
  constructor
  · exact .refl m
  · exact hp
  · exact ht
  · simp
  · simp [StraightLine.shift, hp.emod_eq]
  · intro q hq hs
    exact (Tape.counted_zero (ht.cell_between hq hs)).symm

theorem Nets.snoc (h : m.Nets cs x) (c : Instruction) : m.Nets (cs ++ [c]) (x.worked c).advance := by
  have hsettings : x.SameSettings (x.worked c) := ⟨rfl, rfl, rfl, rfl, rfl, Tape.set_size _ _ _, rfl, rfl⟩
  constructor
  case settings => exact h.settings.trans hsettings.advance
  case pointed => exact h.pointed.worked c
  case valid => exact h.pointed.worked_valid h.valid c
  case position =>
    have hposition : (x.worked c).instructionPointer = x.instructionPointer := rfl
    rw [advance_instructionPointer, hposition, h.position, List.length_append, List.length_singleton]
    omega
  case pointer =>
    have hpointer : (x.worked c).advance.dataPointer = (x.dataPointer + c.distance) % x.tape.size := rfl
    rw [hpointer, h.pointer, h.settings.size, Int.emod_add_emod, StraightLine.shift_snoc, Int.add_assoc]
  case cell =>
    intro q hq hs
    have hcell : (x.worked c).advance.tape.cell q = _ :=
      h.pointed.worked_cell h.valid c hq (h.settings.size ▸ hs)
    have hcounted : ∀ v n, x.tape.counted v n = m.tape.counted v n := by
      intro v n
      rw [Tape.counted, Tape.width, h.settings.minimum, h.settings.maximum]
      rfl
    rw [hcell, hcounted, h.cell q hq hs, Tape.counted_counted, StraightLine.net_snoc, h.pointer]

section Run
variable (hplain : ∀ c ∈ m.program.code, c ∈ Instruction.plain) (hip : m.instructionPointer = 0)
  (hlimit : m.maxSteps = none) (hp : m.Pointed) (ht : m.tape.Valid)
include hplain hip hlimit hp ht

/-- The first instructions are carried out one after the other. -/
theorem exists_after_nets (hk : k ≤ m.program.size) :
    ∃ x, m.after k = some x ∧ m.Nets (m.program.code.toList.take k) x := by
  induction k with
  | zero => exact ⟨m, rfl, .nil hp ht⟩
  | succ k ih =>
    obtain ⟨x, hx, hnets⟩ := ih (by omega)
    have hcode : m.program.code[k]? = some m.program.code[k] := Array.getElem?_eq_getElem hk
    have hmem : m.program.code[k] ∈ m.program.code := Array.getElem_mem hk
    have hlength : (m.program.code.toList.take k).length = k := by
      rw [List.length_take, Array.length_toList]
      exact Nat.min_eq_left (Nat.le_of_succ_le hk)
    have hinstruction : x.program.instructionAt (.integer x.instructionPointer) = .ok m.program.code[k] := by
      rw [hnets.settings.program, hnets.position, hip, hlength, Int.zero_add]
      exact Program.instructionAt_natCast hcode
    have hunlimited : x.limitReached = false := by
      rw [limitReached, hnets.settings.maxSteps, hlimit]
    have hcycle := cycle_of_ok hunlimited hinstruction (hnets.pointed.perform_plain hnets.valid (hplain _ hmem))
    refine ⟨_, by rw [after_add hx, after_one hcycle], ?_⟩
    rw [List.take_add_one, Array.getElem?_toList, hcode]
    exact hnets.snoc _

end Run

end Machine

namespace Program
variable {p : Program}

theorem checkBrackets_plain {cs : List Instruction} (h : ∀ c ∈ cs, c ∈ Instruction.plain) (i : Nat) :
    checkBrackets [] i cs = .ok () := by
  induction cs generalizing i with
  | nil => rfl
  | cons c cs ih =>
    have hc := h c List.mem_cons_self
    obtain ⟨a, rfl⟩ | rfl | rfl := c.action_or_bracket
    · rw [checkBrackets_action]
      exact ih (fun d hd => h d (List.mem_cons_of_mem _ hd)) (i + 1)
    · simp [Instruction.plain] at hc
    · simp [Instruction.plain] at hc

/-- Without brackets there is nothing to be matched, but there has to be an instruction. -/
theorem validate_plain (h : ∀ c ∈ p.code, c ∈ Instruction.plain) :
    p.validate = if p.size = 0 then .error .emptyProgram else .ok () := by
  have hempty : p.code.isEmpty = true ↔ p.size = 0 := Array.isEmpty_iff_size_eq_zero
  unfold validate
  by_cases hsize : p.size = 0
  · rw [if_pos (hempty.mpr hsize), if_pos hsize]
  · rw [if_neg (mt hempty.mp hsize), if_neg hsize]
    exact checkBrackets_plain (fun c hc => h c (Array.mem_toList_iff.mp hc)) 0

end Program

namespace Machine
variable {m m' x : Machine}

/-- The net effect of a straight-line program. Each instruction takes a step, the pointer has moved as far to the right
as there are moves to the right, less those to the left, and each cell has been counted up as often as it was counted up
while the pointer was there, less as often as it was counted down. -/
structure NetEffect (m m' : Machine) : Prop where
  steps : m'.steps = m.steps + m.program.size
  pointer : m'.dataPointer = (m.dataPointer + StraightLine.shift m.program.code.toList) % m.tape.size
  size : m'.tape.size = m.tape.size
  cells : ∀ q : Int, 0 ≤ q → q < m.tape.size → ∃ old, m.tape.read (.integer q) = .ok old ∧
    m'.tape.read (.integer q) = .ok (m.tape.minimum +
      (old - m.tape.minimum + StraightLine.net m.tape.size m.dataPointer m.program.code.toList q) %
        (m.tape.maximum - m.tape.minimum + 1))

theorem Nets.netEffect (h : m.Nets m.program.code.toList x) (hsteps : x.steps = m.steps + m.program.size)
    (hbare : m'.bare = x.bare) : m.NetEffect m' := by
  have hworkspace : m'.workspace = x.workspace := workspace_bare hbare
  have htape : m'.tape = x.tape := congrArg Workspace.tape hworkspace
  have hpointer : m'.dataPointer = x.dataPointer := congrArg Workspace.pointer hworkspace
  have hcount : m'.steps = x.steps := congrArg Workspace.steps hworkspace
  constructor
  · rw [hcount, hsteps]
  · rw [hpointer, h.pointer]
  · rw [htape, h.settings.size]
  · intro q hq hs
    refine ⟨_, Tape.read_integer hq hs, ?_⟩
    rw [htape, Tape.read_integer hq (h.settings.size ▸ hs), h.cell q hq hs]
    rfl

/-- A straight-line program takes as many steps as it has instructions and comes to its net effect, whatever the size of
the tape, the range of its cells and their values; without an instruction it is refused, and nothing happens. Wherever
the pointer stands, counting a cell forward and backward, and moves to the right and to the left, undo each other. -/
theorem run_straight_line (hp : 0 ≤ m.dataPointer ∧ m.dataPointer < m.tape.size) (ht : m.tape.Valid) :
    ((∀ c ∈ m.program.code, c ∈ Instruction.plain) → m.instructionPointer = 0 → m.maxSteps = none →
      ∀ fuel, m.program.size < fuel → ∃ m', m.NetEffect m' ∧
        m.run fuel = (m', if m.program.size = 0 then .error (.fault .emptyProgram) else .ok ())) ∧
      ∀ c d, c.Opposite d → ∃ m₁, m.perform c = (m₁, .ok ()) ∧ m₁.perform d = (m, .ok ()) := by
  have hpointed : m.Pointed := hp
  constructor
  · intro hplain hip hlimit fuel hfuel
    obtain ⟨x, hx, hnets⟩ := exists_after_nets hplain hip hlimit hpointed ht (Nat.le_refl _)
    have hlength : m.program.code.toList.length = m.program.size := Array.length_toList
    rw [← hlength, List.take_length] at hnets
    have hsteps := after_steps hx
    have hvalid := Program.validate_plain hplain
    by_cases hsize : m.program.size = 0
    · rw [if_pos hsize] at hvalid
      rw [hsize] at hx
      obtain rfl := Option.some.inj hx
      exact ⟨m, hnets.netEffect hsteps rfl, by rw [if_pos hsize, run_of_invalid hvalid]⟩
    · rw [if_neg hsize] at hvalid
      have hhalted : x.halted = true := by
        rw [halted, hnets.settings.program, hnets.position, hip, hlength, Int.zero_add]
        exact decide_eq_true (Int.le_refl _)
      obtain ⟨m', hrun, hbare⟩ := run_of_ends_of_lt hvalid (.halts hx hhalted) hfuel
      exact ⟨m', hnets.netEffect hsteps hbare, by rw [hrun, if_neg hsize]⟩
  · intro c d hcd
    have hplain : c ∈ Instruction.plain ∧ d ∈ Instruction.plain := by
      cases hcd <;> simp [Instruction.plain]
    refine ⟨m.worked c, hpointed.perform_plain ht hplain.1, ?_⟩
    rw [(hpointed.worked c).perform_plain (hpointed.worked_valid ht c) hplain.2, hpointed.worked_opposite ht hcd]

/-- A machine on two cells of three values, with the pointer on the second one. -/
def aliasing : Machine where
  program := .ofSource "+>->+"
  tape := ⟨-1, 1, 0, #[0, 1]⟩
  input := ⟨[], .exhausted⟩
  sink := .empty .buffer
  dataPointer := 1

/-- The second cell is counted up twice, once around the bounds, as two moves lead back to it. -/
theorem run_straight_line_aliasing :
    (0 ≤ aliasing.dataPointer ∧ aliasing.dataPointer < aliasing.tape.size) ∧ aliasing.tape.Valid ∧
      (∀ c ∈ aliasing.program.code, c ∈ Instruction.plain) ∧
      StraightLine.net 2 1 aliasing.program.code.toList 1 = 2 ∧
      ∃ m', aliasing.NetEffect m' ∧ aliasing.run 6 = (m', .ok ()) ∧ m'.dataPointer = 1 ∧
        m'.tape.read (.integer 1) = .ok 0 := by
  have hp : 0 ≤ aliasing.dataPointer ∧ aliasing.dataPointer < aliasing.tape.size := by decide
  have ht : aliasing.tape.Valid := ⟨by decide, by decide, by decide⟩
  have hplain : ∀ c ∈ aliasing.program.code, c ∈ Instruction.plain := by decide
  obtain ⟨m', heffect, hrun⟩ := (run_straight_line hp ht).1 hplain rfl rfl 6 (by decide)
  refine ⟨hp, ht, hplain, by decide, m', heffect, hrun, heffect.pointer, ?_⟩
  obtain ⟨old, hold, hnew⟩ := heffect.cells 1 (by decide) (by decide)
  have hread : aliasing.tape.read (.integer 1) = .ok 1 := rfl
  obtain rfl := Except.ok.inj (hold.symm.trans hread)
  exact hnew

end Machine

end Brainfuck
