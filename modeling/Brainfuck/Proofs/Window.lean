import Brainfuck.Machine.Snapshot
import Brainfuck.Proofs.Pool
import Brainfuck.Proofs.Safety

/-! Windows of a tape. A window shows the cells of an interval, unless it stops below nought: then it stops as
far from the end. A snapshot whose reach is that much below nought shows cells that it does not reach. -/
namespace Brainfuck

namespace Tape

def interval (t : Tape) (start stop : Int) : List Int :=
  ((List.range t.size).filter fun i : Nat => decide (start ≤ (i : Int) ∧ (i : Int) < stop)).map
    fun i : Nat => t.cell i

/-- The cells at most `reach` away from a position, in order. -/
def around (t : Tape) (p reach : Int) : List Int :=
  ((List.range t.size).filter fun i : Nat => decide (((i - p).natAbs : Int) ≤ reach)).map
    fun i : Nat => t.cell i

theorem filter_range_between (n : Nat) (start stop : Int) :
    ((List.range n).filter fun i : Nat => decide (start ≤ (i : Int) ∧ (i : Int) < stop)) =
      List.range' start.toNat ((min (n : Int) stop).toNat - start.toNat) := by
  induction n with
  | zero =>
    have hlength : (min ((0 : Nat) : Int) stop).toNat - start.toNat = 0 := by omega
    rw [hlength]
    rfl
  | succ n ih =>
    rw [List.range_succ, List.filter_append, ih]
    by_cases hn : start ≤ (n : Int) ∧ (n : Int) < stop
    · have hshort : (min (n : Int) stop).toNat - start.toNat = n - start.toNat := by omega
      have hlong : (min ((n + 1 : Nat) : Int) stop).toNat - start.toNat = n - start.toNat + 1 := by omega
      have hlast : start.toNat + (n - start.toNat) = n := by omega
      rw [hshort, hlong, List.range'_1_concat, hlast, List.filter_cons_of_pos (by simpa using hn)]
      rfl
    · have hsame : (min ((n + 1 : Nat) : Int) stop).toNat - start.toNat =
          (min (n : Int) stop).toNat - start.toNat := by omega
      rw [hsame, List.filter_cons_of_neg (by simpa using hn), List.filter_nil, List.append_nil]

theorem interval_eq (t : Tape) (start stop : Int) :
    t.interval start stop =
      (List.range' start.toNat ((min (t.size : Int) stop).toNat - start.toNat)).map
        fun i : Nat => t.cell i := by
  rw [interval, filter_range_between]

theorem interval_clamp (t : Tape) (start stop : Int) :
    t.interval (max 0 start) (min (t.size : Int) stop) = t.interval start stop := by
  have hstart : (max 0 start).toNat = start.toNat := by omega
  have hstop : min (t.size : Int) (min (t.size : Int) stop) = min (t.size : Int) stop := by omega
  rw [interval_eq, interval_eq, hstart, hstop]

theorem interval_eq_nil_iff (t : Tape) (start stop : Int) :
    t.interval start stop = [] ↔ min (t.size : Int) stop ≤ max 0 start := by
  rw [interval_eq, List.map_eq_nil_iff, List.range'_eq_nil_iff]
  omega

theorem around_eq (t : Tape) (p reach : Int) :
    t.around p reach = t.interval (p - reach) (p + reach + 1) := by
  have hnear : ∀ i : Nat, ((((i : Int) - p).natAbs : Int) ≤ reach) ↔
      (p - reach ≤ (i : Int) ∧ (i : Int) < p + reach + 1) := by
    omega
  simp only [around, interval, hnear]

/-- A part of the cells, by their positions. -/
theorem extract_toList (t : Tape) {a b : Nat} (hb : b ≤ t.size) :
    (t.cells.extract a b).toList = (List.range' a (b - a)).map fun i : Nat => t.cell i := by
  refine List.ext_getElem ?_ ?_
  · have hb : b ≤ t.cells.size := hb
    simp only [List.length_map, List.length_range', Array.length_toList, Array.size_extract]
    omega
  · intro i hi _
    have hi : a + i < t.cells.size := by
      simp only [Array.length_toList, Array.size_extract] at hi
      omega
    simp [cell, hi]

/-- A window is an interval, but a stop below nought counts from the end. -/
theorem window_eq_interval (t : Tape) (start stop : Int) :
    t.window start stop = t.interval start (if stop < 0 then stop + t.size else stop) := by
  have hstart : (max 0 start).toNat = start.toNat := by omega
  have hstop : (if min (t.size : Int) stop < 0 then min (t.size : Int) stop + t.size
      else min (t.size : Int) stop).toNat =
        (min (t.size : Int) (if stop < 0 then stop + t.size else stop)).toNat := by
    split_ifs <;> omega
  have hle : (min (t.size : Int) (if stop < 0 then stop + t.size else stop)).toNat ≤ t.size := by omega
  rw [interval_eq, ← extract_toList t hle, window, hstart, hstop]

theorem window_eq_interval_iff (t : Tape) (start stop : Int) :
    t.window start stop = t.interval start stop ↔ 0 ≤ stop ∨ stop + t.size ≤ max 0 start := by
  rw [window_eq_interval]
  by_cases hstop : stop < 0
  · have hnil : t.interval start stop = [] := (interval_eq_nil_iff _ _ _).mpr (by omega)
    rw [if_pos hstop, hnil, interval_eq_nil_iff]
    omega
  · rw [if_neg hstop]
    exact iff_of_true rfl (Or.inl (Int.not_lt.mp hstop))

end Tape

namespace Machine
variable {m : Machine}

def Pointed (m : Machine) : Prop :=
  0 ≤ m.dataPointer ∧ m.dataPointer < m.tape.size

/-- Only moves change the data pointer, and they lead around the tape. -/
theorem perform_dataPointer (m : Machine) (c : Instruction) :
    (m.perform c).1.dataPointer = m.dataPointer ∨
      ∃ distance, (m.perform c).1.dataPointer = (m.dataPointer + distance) % m.tape.size := by
  by_cases hright : c = .right
  · subst hright
    exact Or.inr ⟨1, rfl⟩
  · by_cases hleft : c = .left
    · subst hleft
      exact Or.inr ⟨-1, rfl⟩
    · exact Or.inl ((m.perform_footprint c).dataPointer hright hleft)

theorem Pointed.perform (h : m.Pointed) (c : Instruction) : (m.perform c).1.Pointed := by
  have hsize := (m.perform_spares c).settings.size
  obtain ⟨hnonneg, hlt⟩ := h
  unfold Pointed
  rw [hsize]
  obtain hp | ⟨distance, hp⟩ := m.perform_dataPointer c
  · rw [hp]
    exact ⟨hnonneg, hlt⟩
  · rw [hp]
    exact Tape.place_mem (by omega) _

/-- The data pointer never leaves the tape. -/
theorem pointed_lasting : Lasting Pointed where
  cycle _ h := cycle_induction h h.perform fun _ h => h
  record _ _ h := h

theorem Pointed.of_start {program : Program} {tape : Tape} {input : Input} {sink : Sink} {limit : Option Int}
    (ht : tape.Valid) (h : start program tape input sink limit = .ok m) : m.Pointed := by
  have hpos := ht.size_pos
  obtain ⟨rfl, -⟩ := start_ok h
  exact ⟨Int.le_refl _, Int.natCast_pos.mpr hpos⟩

theorem snapshot_tape (m : Machine) (command : Option String) (reach : Int) :
    (m.snapshot command reach).tape = m.tape.interval (m.dataPointer - reach)
      (if m.dataPointer + reach + 1 < 0 then m.dataPointer + reach + 1 + m.tape.size
        else m.dataPointer + reach + 1) := by
  have hstop : (if min (m.tape.size : Int) (m.dataPointer + reach + 1) < 0 then
      min (m.tape.size : Int) (m.dataPointer + reach + 1) + m.tape.size
        else min (m.tape.size : Int) (m.dataPointer + reach + 1)) =
      min (m.tape.size : Int) (if m.dataPointer + reach + 1 < 0 then
        m.dataPointer + reach + 1 + m.tape.size else m.dataPointer + reach + 1) := by
    split_ifs <;> omega
  have hwindow : (m.snapshot command reach).tape = m.tape.window (max 0 (m.dataPointer - reach))
      (min (m.tape.size : Int) (m.dataPointer + reach + 1)) := rfl
  rw [hwindow, Tape.window_eq_interval, hstop, Tape.interval_clamp]

/-- A snapshot shows the cells within its reach, unless its reach is so far below nought that the window stops
below nought and yet behind its start. -/
theorem Pointed.snapshot_tape_iff (h : m.Pointed) (command : Option String) (reach : Int) :
    (m.snapshot command reach).tape = m.tape.around m.dataPointer reach ↔
      -1 ≤ m.dataPointer + reach ∨ m.tape.size < -2 * reach := by
  obtain ⟨hnonneg, hlt⟩ := h
  rw [snapshot_tape, Tape.around_eq]
  by_cases hstop : m.dataPointer + reach + 1 < 0
  · have hnil : m.tape.interval (m.dataPointer - reach) (m.dataPointer + reach + 1) = [] :=
      (Tape.interval_eq_nil_iff _ _ _).mpr (by omega)
    rw [if_pos hstop, hnil, Tape.interval_eq_nil_iff]
    omega
  · rw [if_neg hstop]
    exact iff_of_true rfl (Or.inl (by omega))

end Machine

/-- A window shows exactly the cells of its interval if it does not stop below nought or if its stop, counted
from the end, is not behind its start. A snapshot of a machine in use shows exactly the cells within its reach if
the reach does not end below nought or if it is more than half a tape below nought. -/
theorem Pool.windows_exact_iff {program : Program} {tape : Tape} {input : Input} {sink : Sink}
    {limit : Option Int} {m : Machine} {q : Pool} (ht : tape.Made)
    (hm : Machine.start program tape input sink limit = .ok m) (hq : q.Reachable m) :
    (∀ (t : Tape) (start stop : Int),
        t.window start stop = t.interval start (if stop < 0 then stop + t.size else stop) ∧
          (t.window start stop = t.interval start stop ↔ 0 ≤ stop ∨ stop + t.size ≤ max 0 start)) ∧
      ∀ (command : Option String) (reach : Int),
        (q.machine.snapshot command reach).tape = q.machine.tape.around q.machine.dataPointer reach ↔
          -1 ≤ q.machine.dataPointer + reach ∨ q.machine.tape.size < -2 * reach := by
  have hpointed := Machine.pointed_lasting.reachable (Machine.Pointed.of_start ht.valid hm) hq
  refine ⟨?_, hpointed.snapshot_tape_iff⟩
  intro t start stop
  exact ⟨t.window_eq_interval start stop, t.window_eq_interval_iff start stop⟩

/-- A machine that moves to the right, on five cells. -/
def fiveCells : Machine where
  program := .ofSource ">"
  tape := ⟨0, 255, 0, #[0, 0, 0, 0, 0]⟩
  input := ⟨[], .exhausted⟩
  sink := .empty .buffer

theorem fiveCells_made : fiveCells.tape.Made := by
  have hblank : Tape.blank { size := .ok 5 } = .ok fiveCells.tape := rfl
  exact .blank hblank

theorem Pool.windows_exact_iff_moved :
    fiveCells.tape.Made ∧
      Machine.start fiveCells.program fiveCells.tape fiveCells.input fiveCells.sink none = .ok fiveCells ∧
      Pool.Reachable fiveCells (after ⟨fiveCells, []⟩ [.run 2]) ∧
      (after ⟨fiveCells, []⟩ [.run 2]).machine.dataPointer = 1 ∧
      ((after ⟨fiveCells, []⟩ [.run 2]).machine.snapshot none (-2)).tape = [] := by
  have hm : Machine.start fiveCells.program fiveCells.tape fiveCells.input fiveCells.sink none =
      .ok fiveCells := rfl
  have hq : Pool.Reachable fiveCells (after ⟨fiveCells, []⟩ [.run 2]) := ⟨_, rfl⟩
  have hexact := (windows_exact_iff fiveCells_made hm hq).2 none (-2)
  have hpointer : (after ⟨fiveCells, []⟩ [.run 2]).machine.dataPointer = 1 := by decide +kernel
  have hnone : (after ⟨fiveCells, []⟩ [.run 2]).machine.tape.around 1 (-2) = [] := by decide +kernel
  rw [hpointer, hnone] at hexact
  exact ⟨fiveCells_made, hm, hq, hpointer, hexact.mpr (Or.inl (by decide))⟩

/-- A window up to the cell in front of the first one shows all cells but the last. -/
theorem Pool.window_ne_interval :
    fiveCells.tape.Made ∧
      fiveCells.tape.window 0 (-1) = [0, 0, 0, 0] ∧ fiveCells.tape.interval 0 (-1) = [] ∧
      (fiveCells.snapshot none (-2)).tape = [0, 0] ∧
      fiveCells.tape.around fiveCells.dataPointer (-2) = [] :=
  ⟨fiveCells_made, by decide +kernel, by decide +kernel, by decide +kernel, by decide +kernel⟩

end Brainfuck
