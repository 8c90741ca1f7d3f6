import Brainfuck.Proofs.LockStep
import Brainfuck.Proofs.Transitions

/-! Rotation. No instruction tells one cell from another but by the pointer: a machine whose tape and pointer have been
turned by any number of places goes the same way, and what it comes to is turned alike. -/
namespace Brainfuck

namespace Tape
variable {t : Tape} {k p q : Int}

/-- The tape with each cell `k` places further on; the first cell comes behind the last one. -/
def turned (t : Tape) (k : Int) : Tape :=
  { t with cells := ((List.range t.size).map fun i : Nat => t.cell ((i - k) % t.size)).toArray }

@[simp] theorem turned_size (t : Tape) (k : Int) : (t.turned k).size = t.size := by
  simp [turned, Tape.size]

/-- Tapes with the same bounds and the same cells are the same. -/
theorem eq_of_cell {u : Tape} (hmin : u.minimum = t.minimum) (hmax : u.maximum = t.maximum)
    (hdefault : u.default = t.default) (hsize : u.size = t.size)
    (hcell : ∀ q : Int, 0 ≤ q → q < t.size → u.cell q = t.cell q) : u = t := by
  obtain ⟨minimum, maximum, default, cells⟩ := t
  obtain ⟨minimum', maximum', default', cells'⟩ := u
  obtain rfl : minimum' = minimum := hmin
  obtain rfl : maximum' = maximum := hmax
  obtain rfl : default' = default := hdefault
  have hcells : cells' = cells := by
    refine Array.ext hsize fun i hi hi' => ?_
    have hi : (i : Int) < cells.size := Int.ofNat_lt.mpr hi'
    have hcell := hcell i (Int.natCast_nonneg i) hi
    simpa [cell, *] using hcell
  rw [hcells]

theorem turned_cell (hq : 0 ≤ q) (hs : q < t.size) : (t.turned k).cell q = t.cell ((q - k) % t.size) := by
  have hi : q.toNat < t.size := by omega
  have hplace : (q.toNat : Int) = q := Int.toNat_of_nonneg hq
  simp [turned, cell, hi, hplace]

/-- What a cell holds is found `k` places further on. -/
theorem turned_cell_add (hp : 0 ≤ p) (hs : p < t.size) (k : Int) :
    (t.turned k).cell ((p + k) % t.size) = t.cell p := by
  obtain ⟨hnonneg, hlt⟩ := place_mem (t := t) (by omega) (p + k)
  rw [turned_cell hnonneg hlt, Int.emod_sub_emod, Int.add_sub_cancel, Int.emod_eq_of_lt hp hs]

theorem Valid.turned (ht : t.Valid) (k : Int) : (t.turned k).Valid := by
  refine ⟨?_, ht.default_mem, ?_⟩
  · rw [turned_size]
    exact ht.size_pos
  · intro v hv
    obtain ⟨i, -, rfl⟩ := List.mem_map.mp (List.mem_toArray.mp hv)
    obtain ⟨hnonneg, hlt⟩ := place_mem ht.size_pos (i - k)
    exact ht.cell_between hnonneg hlt

/-- It makes no difference whether a cell is set before a turn or behind it. -/
theorem set_turned (hp : 0 ≤ p) (hs : p < t.size) (k v : Int) :
    (t.turned k).set ((p + k) % t.size).toNat v = (t.set p.toNat v).turned k := by
  have hpos : 0 < t.size := by omega
  obtain ⟨hnonneg, hlt⟩ := place_mem hpos (p + k)
  have hsize : ((t.set p.toNat v).turned k).size = t.size := by rw [turned_size, set_size]
  refine eq_of_cell rfl rfl rfl ?_ ?_
  · rw [hsize, set_size, turned_size]
  · intro q hq hq'
    rw [hsize] at hq'
    obtain ⟨hback, -⟩ := place_mem hpos (q - k)
    rw [turned_cell hq (by rwa [set_size]), set_size]
    by_cases hcurrent : q = (p + k) % t.size
    · have hplace : (q - k) % t.size = p := by
        rw [hcurrent, Int.emod_sub_emod, Int.add_sub_cancel, Int.emod_eq_of_lt hp hs]
      rw [hplace, cell_set hp hs, hcurrent, cell_set hnonneg (by rwa [turned_size])]
    · have hplace : (q - k) % t.size ≠ p := by
        rintro rfl
        rw [Int.emod_add_emod, Int.sub_add_cancel, Int.emod_eq_of_lt hq hq'] at hcurrent
        exact hcurrent rfl
      rw [cell_set_ne hnonneg hq hcurrent, cell_set_ne hp hback hplace, turned_cell hq hq']

end Tape

namespace Machine
variable {m m₁ : Machine} {c : Instruction}

def turned (m : Machine) (k : Int) : Machine :=
  { m with tape := m.tape.turned k, dataPointer := (m.dataPointer + k) % m.tape.size }

theorem move_turned (m : Machine) (k distance : Int) : (m.turned k).move distance = (m.move distance).turned k := by
  have hplace : ((m.dataPointer + k) % m.tape.size + distance) % m.tape.size =
      ((m.dataPointer + distance) % m.tape.size + k) % m.tape.size := by
    rw [Int.emod_add_emod, Int.emod_add_emod, Int.add_right_comm]
  simp only [move, turned, Tape.turned_size, hplace]

section Valid
variable (hw : m.workspace.Valid)
include hw

theorem turned_valid (k : Int) : (m.turned k).workspace.Valid := by
  obtain ⟨hnonneg, hlt⟩ := Tape.place_mem hw.tape.size_pos (m.dataPointer + k)
  refine ⟨hw.tape.turned k, hnonneg, ?_, hw.input⟩
  have hsize : (m.turned k).tape.size = m.tape.size := Tape.turned_size _ _
  rw [workspace, hsize]
  exact hlt

variable (k : Int)

theorem current_turned : (m.turned k).current = m.current := by
  have hcell : (m.turned k).workspace.current = m.workspace.current :=
    Tape.turned_cell_add hw.pointer_nonneg hw.pointer_lt k
  rw [current_ok (turned_valid hw k), current_ok hw, hcell]

theorem store_turned {v : Int} (hv : m.tape.minimum ≤ v ∧ v ≤ m.tape.maximum) :
    (m.turned k).store (.integer v) = ((m.store (.integer v)).1.turned k, (m.store (.integer v)).2) := by
  have hset : (m.turned k).tape.set (m.turned k).dataPointer.toNat v = (m.tape.set m.dataPointer.toNat v).turned k :=
    Tape.set_turned hw.pointer_nonneg hw.pointer_lt k v
  rw [store_integer (turned_valid hw k) hv, store_integer hw hv, hset]
  simp only [turned, Tape.set_size]

theorem update_turned {f : Tape → Int → Int} (hf : f (m.tape.turned k) = f m.tape)
    (hv : m.tape.minimum ≤ f m.tape m.workspace.current ∧ f m.tape m.workspace.current ≤ m.tape.maximum) :
    (m.turned k).update f = ((m.update f).1.turned k, (m.update f).2) := by
  refine update_changed (g := (turned · k)) (current_turned hw k) hf ?_
  intro v hcurrent
  obtain rfl := Except.ok.inj ((current_ok hw).symm.trans hcurrent)
  exact store_turned hw k hv

/-- What is read is no different, and what is read fits into the cell. -/
theorem receive_turned : (m.turned k).receive = (m.receive.1.turned k, m.receive.2) := by
  refine receive_changed (g := (turned · k)) rfl (fun _ _ => rfl) ?_
  rintro v x houtcome ⟨journal, rfl⟩
  obtain ⟨hvalid, n, rfl, hn⟩ := received hw journal houtcome
  exact store_turned hvalid k hn

theorem send_turned : (m.turned k).send = (m.send.1.turned k, m.send.2) :=
  send_changed (g := (turned · k)) (current_turned hw k) (fun _ => rfl) fun _ => rfl

theorem jumpIf_turned (d : Direction) (test : Int → Bool) :
    (m.turned k).jumpIf d test = ((m.jumpIf d test).1.turned k, (m.jumpIf d test).2) :=
  jumpIf_changed (g := (turned · k)) (current_turned hw k) rfl rfl (fun _ => rfl) d test

theorem perform_turned (c : Instruction) : (m.turned k).perform c = ((m.perform c).1.turned k, (m.perform c).2) := by
  have hbetween := hw.current_between
  cases c with
  | right => exact Prod.ext (m.move_turned k 1) rfl
  | left => exact Prod.ext (m.move_turned k (-1)) rfl
  | increment => exact update_turned hw k rfl (Tape.next_between hbetween)
  | decrement => exact update_turned hw k rfl (Tape.previous_between hbetween)
  | read => exact receive_turned hw k
  | write => exact send_turned hw k
  | loopOpen => exact jumpIf_turned hw k _ _
  | loopClose => exact jumpIf_turned hw k _ _

theorem cycle_turned : (m.turned k).cycle = (m.cycle.1.turned k, m.cycle.2) :=
  cycle_changed (g := (turned · k)) rfl rfl rfl (fun _ => rfl) fun c _ _ => perform_turned hw k c

end Valid

theorem commutes_turned (k : Int) : Commutes (turned · k) fun _ m => m.workspace.Valid where
  program _ := rfl
  halted _ := rfl
  cycle hw _ := cycle_turned hw k
  later hw hc := by
    have hvalid := cycle_valid hw
    rwa [hc] at hvalid

/-- A machine that differs from another one in nothing but that its pointer stands `k` places further on, and that its
cells hold what the cells `k` places before them hold there. -/
structure Turned (k : Int) (m m' : Machine) : Prop where
  program : m'.program = m.program
  input : m'.input = m.input
  sink : m'.sink = m.sink
  maxSteps : m'.maxSteps = m.maxSteps
  instructionPointer : m'.instructionPointer = m.instructionPointer
  steps : m'.steps = m.steps
  journal : m'.journal = m.journal
  minimum : m'.tape.minimum = m.tape.minimum
  maximum : m'.tape.maximum = m.tape.maximum
  default : m'.tape.default = m.tape.default
  size : m'.tape.size = m.tape.size
  pointer : m'.dataPointer = (m.dataPointer + k) % m.tape.size
  cells : ∀ i : Int, 0 ≤ i → i < m.tape.size →
    m'.tape.read (.integer ((i + k) % m.tape.size)) = m.tape.read (.integer i)

theorem turned_turned (m : Machine) (k : Int) : m.Turned k (m.turned k) := by
  have hsize : (m.turned k).tape.size = m.tape.size := Tape.turned_size _ _
  constructor
  case size => exact hsize
  case cells =>
    intro i hi hs
    obtain ⟨hnonneg, hlt⟩ := Tape.place_mem (t := m.tape) (by omega) (i + k)
    rw [Tape.read_integer hnonneg (by rwa [hsize]), Tape.read_integer hi hs]
    exact congrArg _ (Tape.turned_cell_add hi hs k)
  all_goals rfl

theorem Turned.eq_turned {k : Int} {m' : Machine} (h : m.Turned k m') : m' = m.turned k := by
  have htape : m'.tape = m.tape.turned k := by
    refine Tape.eq_of_cell h.minimum h.maximum h.default (by rw [h.size, Tape.turned_size]) ?_
    intro q hq hs
    rw [Tape.turned_size] at hs
    obtain ⟨hback, hback'⟩ := Tape.place_mem (t := m.tape) (by omega) (q - k)
    have hcell := h.cells _ hback hback'
    rw [Int.emod_add_emod, Int.sub_add_cancel, Int.emod_eq_of_lt hq hs, Tape.read_integer hq (by rwa [h.size]),
      Tape.read_integer hback hback'] at hcell
    rw [Tape.turned_cell hq hs]
    exact Except.ok.inj hcell
  obtain ⟨program, tape, input, sink, maxSteps, instructionPointer, dataPointer, steps, journal⟩ := m'
  obtain rfl : program = m.program := h.program
  obtain rfl : tape = m.tape.turned k := htape
  obtain rfl : input = m.input := h.input
  obtain rfl : sink = m.sink := h.sink
  obtain rfl : maxSteps = m.maxSteps := h.maxSteps
  obtain rfl : instructionPointer = m.instructionPointer := h.instructionPointer
  obtain rfl : dataPointer = _ := h.pointer
  obtain rfl : steps = m.steps := h.steps
  obtain rfl : journal = m.journal := h.journal
  rfl

/-- Machines of which one is the other one turned go in lock step, whatever the program: behind every cycle the one is
the other one turned, or neither gets that far, and runs have the same result and leave them turned. -/
theorem run_rotated {k : Int} {m' : Machine} (ht : m.tape.Valid)
    (hp : 0 ≤ m.dataPointer ∧ m.dataPointer < m.tape.size) (hi : m.input.Integral) (h : m.Turned k m') :
    (∀ n, Option.Rel (Turned k) (m.after n) (m'.after n)) ∧
      ∀ fuel, (m'.run fuel).2 = (m.run fuel).2 ∧ (m.run fuel).1.Turned k (m'.run fuel).1 := by
  have hw : m.workspace.Valid := ⟨ht, hp.1, hp.2, hi⟩
  obtain rfl := h.eq_turned
  constructor
  · intro n
    have hafter := (commutes_turned k).after (n := n) hw
    rw [hafter]
    cases m.after n with
    | none => exact .none
    | some x => exact .some (x.turned_turned k)
  · intro fuel
    have hrun : (m.turned k).run fuel = _ := (commutes_turned k).run (fun _ _ => rfl) h.size (fun _ => rfl) hw
    rw [hrun]
    exact ⟨rfl, turned_turned _ k⟩

/-- A machine that adds what it reads to the last of three cells, which is in front of the first one. -/
def adding : Machine where
  program := .ofSource ",[<+>-]<."
  tape := ⟨0, 255, 0, #[0, 5, 9]⟩
  input := ⟨[.integer 2], .exhausted⟩
  sink := .empty .buffer

/-- One place further on it is the first cell that is added to, and the pointer does not pass the end. -/
theorem run_rotated_adding :
    let further : Machine := { adding with tape := ⟨0, 255, 0, #[9, 0, 5]⟩, dataPointer := 1 }
    adding.tape.Valid ∧ (0 ≤ adding.dataPointer ∧ adding.dataPointer < adding.tape.size) ∧ adding.input.Integral ∧
      adding.Turned 1 further ∧ (further.run 30).2 = .ok () ∧ (adding.run 30).1.dataPointer = 2 ∧
      (further.run 30).1.dataPointer = 0 ∧ (further.run 30).1.tape.read (.integer 0) = .ok 11 := by
  intro further
  have ht : adding.tape.Valid := ⟨by decide, by decide, by decide⟩
  have hp : 0 ≤ adding.dataPointer ∧ adding.dataPointer < adding.tape.size := by decide
  have hi : adding.input.Integral := by
    constructor
    · intro v hv
      exact ⟨2, List.mem_singleton.mp hv⟩
    · intro v hv
      cases hv
  have htape : adding.tape.turned 1 = further.tape := by decide
  have hfurther : adding.turned 1 = further := by
    rw [turned, htape]
    rfl
  have hturned : adding.Turned 1 further := hfurther ▸ adding.turned_turned 1
  obtain ⟨hresult, hleft⟩ := (run_rotated ht hp hi hturned).2 30
  have hend : (adding.run 30).2 = .ok () := rfl
  have hpointer : (adding.run 30).1.dataPointer = 2 := rfl
  have hsize : (adding.run 30).1.tape.size = 3 := rfl
  have hcell : (adding.run 30).1.tape.read (.integer 2) = .ok 11 := rfl
  have hread := hleft.cells 2 (by decide) (by rw [hsize]; decide)
  rw [hsize, hcell] at hread
  exact ⟨ht, hp, hi, hturned, hresult.trans hend, hpointer, by rw [hleft.pointer, hpointer, hsize]; rfl, hread⟩

end Machine

end Brainfuck
