import Mathlib.Data.List.Chain
import Brainfuck.Proofs.Delivery
import Brainfuck.Proofs.Pairs
import Brainfuck.Proofs.Stepper
import Brainfuck.Proofs.Utf8
import Brainfuck.Proofs.Window

/-! Transitions. What a stepper shows next follows from what it has shown before, from the program and from the
instruction that it shows: where the machine goes on, where its pointer stands, what it has written, and which
cells are as they were. -/
namespace Brainfuck

namespace Instruction

/-- Where the data pointer stands behind an instruction, on a tape of `size` cells. -/
def pointerFrom (size p : Int) : Instruction → Int
  | right => (p + 1) % size
  | left => (p - 1) % size
  | _ => p

def Sets : Instruction → Prop
  | increment => True
  | decrement => True
  | read => True
  | _ => False

/-- The brackets that do not go on with the next instruction, by the current cell. -/
def Taken (v : Int) : Instruction → Prop
  | loopOpen => v = 0
  | loopClose => v ≠ 0
  | _ => False

end Instruction

/-- Where a machine goes on behind an instruction, by the current cell: behind the partner of a bracket that is
taken, and else at the next position. -/
inductive Program.GoesOn (p : Program) (v : Int) : Instruction → Int → Int → Prop where
  | next {c : Instruction} {i : Int} (h : ¬ c.Taken v) : GoesOn p v c i (i + 1)
  | forward {i j : Nat} (hv : v = 0) (h : p.Partners i j) : GoesOn p v .loopOpen i (j + 1)
  | backward {i j : Nat} (hv : v ≠ 0) (h : p.Partners i j) : GoesOn p v .loopClose j (i + 1)

namespace Snapshot

def cell? (x : Snapshot) (k : Int) : Option Int :=
  if x.tapeStart ≤ k then x.tape[(k - x.tapeStart).toNat]? else none

/-- A snapshot shows a machine as it is: its counters, its text, and its cells around the data pointer, from the
first one within reach to the last one. -/
structure Depicts (x : Snapshot) (m : Machine) (reach : Int) : Prop where
  step : x.step = m.steps
  position : x.position = m.instructionPointer
  pointer : x.pointer = m.dataPointer
  output : x.output = m.sink.bufferText?
  tapeStart : x.tapeStart = max 0 (x.pointer - reach)
  length : (x.tape.length : Int) = min (m.tape.size : Int) (x.pointer + reach + 1) - x.tapeStart
  cells : ∀ (i : Nat) (v : Int), x.tape[i]? = some v → m.tape.read (.integer (x.tapeStart + i)) = .ok v
  inside : x.tapeStart ≤ x.pointer ∧ x.pointer < x.tapeStart + x.tape.length

/-- A text is as it was, but for a character with the code `v` behind a write. -/
def Extends (c : Instruction) (v : Int) (before after : Option String) : Prop :=
  ∃ text, before = some text ∧
    if c = .write then ∃ x : Char, (x.toNat : Int) = v ∧ after = some (text.push x) else after = some text

/-- An instruction explains the step from one snapshot to the next, of a machine with `size` cells: it is the one
that the first snapshot points to, and with the current cell that it shows, `v`, all else follows. -/
structure Explains (p : Program) (size : Int) (c : Instruction) (v : Int) (s t : Snapshot) : Prop where
  instruction : p.instructionAt (.integer s.position) = .ok c
  command : t.command = some c.toString
  current : s.cell? s.pointer = some v
  step : t.step = s.step + 1
  position : p.GoesOn v c s.position t.position
  pointer : t.pointer = c.pointerFrom size s.pointer
  output : Extends c v s.output t.output
  cells : ∀ k a b, s.cell? k = some a → t.cell? k = some b → a = b ∨ (k = s.pointer ∧ c.Sets)

/-- A snapshot follows another one: an instruction explains it, or it is the same, without an instruction. -/
structure Follows (p : Program) (size : Int) (s t : Snapshot) : Prop where
  explained : t.command ≠ none → ∃ c v, Explains p size c v s t
  repeated : t.command = none → t = { s with command := none }

end Snapshot

namespace Workspace
variable {s t : Workspace} {a : Action}

theorem perform_pointer (h : a.perform s = (t, .ok ())) :
    t.pointer = a.instruction.pointerFrom s.tape.size s.pointer := by
  cases a with
  | read =>
    simp only [Action.perform, receive] at h
    split at h
    · cases h
      rfl
    · cases h
  | write =>
    simp only [Action.perform, send] at h
    split at h
    · cases h
      rfl
    · cases h
  | _ =>
    cases h
    rfl

/-- An action leaves the tape alone, or it sets the current cell. -/
theorem perform_tape (h : a.perform s = (t, .ok ())) :
    t.tape = s.tape ∨ a.instruction.Sets ∧ ∃ v, t.tape = s.tape.set s.pointer.toNat v := by
  cases a with
  | read =>
    simp only [Action.perform, receive] at h
    split at h
    · next v _ _ =>
      cases h
      exact Or.inr ⟨trivial, v, rfl⟩
    · cases h
  | write =>
    simp only [Action.perform, send] at h
    split at h
    · cases h
      exact Or.inl rfl
    · cases h
  | right =>
    cases h
    exact Or.inl rfl
  | left =>
    cases h
    exact Or.inl rfl
  | increment =>
    cases h
    exact Or.inr ⟨trivial, _, rfl⟩
  | decrement =>
    cases h
    exact Or.inr ⟨trivial, _, rfl⟩

/-- Only a write changes a buffer, and it writes a byte. -/
theorem perform_sink (h : a.perform s = (t, .ok ())) (hbuffer : s.sink.kind = .buffer) :
    (a = .write ∧ (0 ≤ s.current ∧ s.current ≤ 255) ∧ t.sink = s.sink.push s.current) ∨
      (a ≠ .write ∧ t.sink = s.sink) := by
  cases a with
  | read =>
    simp only [Action.perform, receive] at h
    split at h
    · cases h
      exact Or.inr ⟨by decide, rfl⟩
    · cases h
  | write =>
    simp only [Action.perform, send] at h
    split at h
    · next hwritten =>
      have hbyte := hwritten.resolve_left (by simp [hbuffer])
      cases h
      exact Or.inl ⟨rfl, hbyte, rfl⟩
    · cases h
  | _ =>
    cases h
    exact Or.inr ⟨by decide, rfl⟩

end Workspace

theorem Sink.push_text (sink : Sink) (n : Int) : (sink.push n).text = sink.text.push (Char.ofNat n.toNat) := by
  simp [Sink.text, Sink.push]

theorem Sink.push_bufferText {sink : Sink} (hbuffer : sink.kind = .buffer) {v : Int} (hv : 0 ≤ v ∧ v ≤ 255) :
    ∃ x : Char, (x.toNat : Int) = v ∧ (sink.push v).bufferText? = some (sink.text.push x) := by
  have hvalid : v.toNat.isValidChar := Or.inl (by omega)
  refine ⟨Char.ofNat v.toNat, ?_, ?_⟩
  · rw [Text.toNat_ofNat hvalid]
    exact Int.toNat_of_nonneg hv.1
  · have hkind : (sink.push v).kind = .buffer := hbuffer
    rw [Sink.bufferText?, if_pos hkind, Sink.push_text]

namespace Machine
variable {m m' : Machine} {c : Instruction} {reach : Int}

theorem Safe.pointed (h : m.Safe) : m.Pointed :=
  ⟨h.workspace.pointer_nonneg, h.workspace.pointer_lt⟩

section Snapshot
variable (hm : m.Pointed) (hr : 0 ≤ reach)
include hm hr

theorem Pointed.snapshot_tape_eq (command : Option String) :
    (m.snapshot command reach).tape = (List.range' (m.dataPointer - reach).toNat
      ((min (m.tape.size : Int) (m.dataPointer + reach + 1)).toNat - (m.dataPointer - reach).toNat)).map
        fun i : Nat => m.tape.cell i := by
  have hnonneg := hm.1
  rw [snapshot_tape, if_neg (by omega), Tape.interval_eq]

theorem Pointed.snapshot_length (command : Option String) :
    ((m.snapshot command reach).tape.length : Int) =
      min (m.tape.size : Int) (m.dataPointer + reach + 1) - max 0 (m.dataPointer - reach) := by
  obtain ⟨hnonneg, hlt⟩ := hm
  rw [Pointed.snapshot_tape_eq ⟨hnonneg, hlt⟩ hr, List.length_map, List.length_range']
  omega

/-- The cells that are shown are those of the tape, from the first one within reach on. -/
theorem Pointed.snapshot_getElem? (command : Option String) {i : Nat} {v : Int}
    (hv : (m.snapshot command reach).tape[i]? = some v) :
    0 ≤ max 0 (m.dataPointer - reach) + i ∧ max 0 (m.dataPointer - reach) + i < m.tape.size ∧
      m.tape.cell (max 0 (m.dataPointer - reach) + i) = v := by
  have hlength := hm.snapshot_length hr command
  obtain ⟨hi, -⟩ := List.getElem?_eq_some_iff.mp hv
  have hplace : (((m.dataPointer - reach).toNat + 1 * i : Nat) : Int) = max 0 (m.dataPointer - reach) + i := by
    omega
  rw [hm.snapshot_tape_eq hr, List.getElem?_map] at hv
  obtain ⟨k, hk, rfl⟩ := Option.map_eq_some_iff.mp hv
  obtain ⟨_, rfl⟩ := List.getElem?_eq_some_iff.mp hk
  refine ⟨by omega, by omega, ?_⟩
  rw [List.getElem_range', hplace]

theorem Pointed.depicts (command : Option String) : (m.snapshot command reach).Depicts m reach := by
  have hlength := hm.snapshot_length hr command
  have hpointer : 0 ≤ m.dataPointer ∧ m.dataPointer < m.tape.size := hm
  have hstart : (m.snapshot command reach).tapeStart = max 0 (m.dataPointer - reach) := rfl
  constructor
  case cells =>
    intro i v hv
    obtain ⟨hnonneg, hlt, rfl⟩ := hm.snapshot_getElem? hr command hv
    rw [hstart]
    exact Tape.read_integer hnonneg hlt
  case inside =>
    have hshown : (m.snapshot command reach).pointer = m.dataPointer := rfl
    rw [hstart, hshown, hlength]
    omega
  case length => exact hlength
  all_goals rfl

/-- The current cell is shown. -/
theorem Pointed.cell?_pointer (command : Option String) :
    (m.snapshot command reach).cell? m.dataPointer = some (m.tape.cell m.dataPointer) := by
  have hlength := hm.snapshot_length hr command
  have hpointer : 0 ≤ m.dataPointer ∧ m.dataPointer < m.tape.size := hm
  have hstart : (m.snapshot command reach).tapeStart = max 0 (m.dataPointer - reach) := rfl
  have hi : (m.dataPointer - max 0 (m.dataPointer - reach)).toNat < (m.snapshot command reach).tape.length := by
    omega
  rw [Snapshot.cell?, hstart, if_pos (by omega), List.getElem?_eq_getElem hi]
  have hcell := (hm.snapshot_getElem? hr command (List.getElem?_eq_getElem hi)).2.2
  rw [← hcell]
  congr 2
  omega

theorem Pointed.cell?_eq (command : Option String) {k v : Int}
    (hv : (m.snapshot command reach).cell? k = some v) : 0 ≤ k ∧ m.tape.cell k = v := by
  have hstart : (m.snapshot command reach).tapeStart = max 0 (m.dataPointer - reach) := rfl
  unfold Snapshot.cell? at hv
  rw [hstart] at hv
  split at hv
  · next hk =>
    obtain ⟨hnonneg, -, hcell⟩ := hm.snapshot_getElem? hr command hv
    have hplace : max 0 (m.dataPointer - reach) + ((k - max 0 (m.dataPointer - reach)).toNat : Int) = k := by omega
    rw [hplace] at hnonneg hcell
    exact ⟨hnonneg, hcell⟩
  · cases hv

end Snapshot

/-- What a cycle does that is carried out: an action is done to the workspace, and a bracket only says where to go
on. -/
inductive Turns (m : Machine) : Instruction → Machine → Prop where
  | action {a : Action} {t : Workspace} {m' : Machine} (ha : a.perform m.workspace = (t, .ok ()))
      (hw : m'.workspace = t.tick) (hi : m'.instructionPointer = m.instructionPointer + 1) :
      Turns m a.instruction m'
  | bracket {c : Instruction} {m' : Machine} (hc : c = .loopOpen ∨ c = .loopClose)
      (hw : m'.workspace = m.workspace.tick)
      (hi : m.program.GoesOn m.workspace.current c m.instructionPointer m'.instructionPointer) : Turns m c m'

section Cycle
variable (hw : m.workspace.Valid) (hc : m.cycle = (m', .ok c))
include hw hc

/-- A bracket of a pair leads behind its partner or to the next position. -/
theorem goesOn_of_pair {b : Block} {i j : Nat} (hb : m.program.code.toList = b.flatten)
    (hpair : (i, j) ∈ b.pairs 0)
    (hi : (c = .loopOpen ∧ m.instructionPointer = i) ∨ (c = .loopClose ∧ m.instructionPointer = j)) :
    m'.workspace = m.workspace.tick ∧
      m.program.GoesOn m.workspace.current c m.instructionPointer m'.instructionPointer := by
  have hpartners := Program.partners_of_mem_pairs hb hpair
  have hholds : m.program.Holds ((0 : Nat) : Int) b.flatten := hb ▸ m.program.holds_zero
  obtain ⟨body, tail, hloop, hj⟩ := Block.exists_body_of_mem_pairs hholds hpair
  have hplace : m.instructionPointer = i ∨ m.instructionPointer = i + 1 + body.flatten.length := by
    omega
  obtain ⟨m₁, c₁, hcycle, hworkspace, hnext⟩ := cycle_test hw (exists_perform_of_cycle_ok hc).1 hloop hplace
  obtain ⟨rfl, -⟩ := Prod.mk.inj (hcycle.symm.trans hc)
  have hbehind : (i : Int) + 1 + body.flatten.length + 1 = j + 1 := by omega
  rw [hbehind] at hnext
  refine ⟨hworkspace, ?_⟩
  rw [hnext]
  obtain ⟨rfl, hi⟩ | ⟨rfl, hi⟩ := hi
  · rw [hi]
    split
    · next hzero => exact .forward hzero hpartners
    · next hzero => exact .next hzero
  · rw [hi]
    split
    · next hzero => exact .next (not_not_intro hzero)
    · next hzero => exact .backward hzero hpartners

theorem turns_of_cycle (hv : m.program.validate = .ok ()) : m.Turns c m' := by
  obtain ⟨hl, hi, -⟩ := exists_perform_of_cycle_ok hc
  obtain ⟨a, rfl⟩ | hbracket := c.action_or_bracket
  · rcases ha : a.perform m.workspace with ⟨t, e | u⟩
    · obtain ⟨m₁, hcycle, -⟩ := cycle_action_error hw hl hi ha
      cases hc.symm.trans hcycle
    · obtain ⟨m₁, hcycle, hworkspace, hnext⟩ := cycle_action_ok hw hl hi ha
      obtain ⟨rfl, -⟩ := Prod.mk.inj (hcycle.symm.trans hc)
      exact .action ha hworkspace hnext
  · obtain ⟨-, b, hb⟩ := (Program.validate_ok_iff _).mp hv
    obtain ⟨k, hk⟩ := Int.eq_ofNat_of_zero_le (Program.instructionAt_ok hi).1
    rw [hk] at hi
    obtain ⟨hopen, j, hpair⟩ | ⟨hclose, i, hpair⟩ :=
      Program.exists_partner hb (Program.instructionAt_natCast_iff.mp hi) hbracket
    · obtain ⟨hworkspace, hnext⟩ := goesOn_of_pair hw hc hb hpair (Or.inl ⟨hopen, hk⟩)
      exact .bracket hbracket hworkspace hnext
    · obtain ⟨hworkspace, hnext⟩ := goesOn_of_pair hw hc hb hpair (Or.inr ⟨hclose, hk⟩)
      exact .bracket hbracket hworkspace hnext

end Cycle

namespace Turns
variable (h : m.Turns c m')
include h

theorem goesOn : m.program.GoesOn m.workspace.current c m.instructionPointer m'.instructionPointer := by
  cases h with
  | @action a t _ ha hw hi =>
    rw [hi]
    refine .next ?_
    cases a <;> exact id
  | bracket hc hw hi => exact hi

theorem pointer : m'.dataPointer = c.pointerFrom m.tape.size m.dataPointer := by
  cases h with
  | action ha hw hi => exact (congrArg Workspace.pointer hw).trans (Workspace.perform_pointer ha)
  | bracket hc hw hi =>
    have hpointer : m'.dataPointer = m.dataPointer := congrArg Workspace.pointer hw
    obtain rfl | rfl := hc
    · exact hpointer
    · exact hpointer

/-- Only the current cell changes, and only by the instructions that set it. -/
theorem cell {k : Int} (hp : 0 ≤ m.dataPointer) (hk : 0 ≤ k) :
    m'.tape.cell k = m.tape.cell k ∨ (k = m.dataPointer ∧ c.Sets) := by
  cases h with
  | action ha hw hi =>
    have htape := congrArg Workspace.tape hw
    obtain hsame | ⟨hsets, v, hset⟩ := Workspace.perform_tape ha
    · exact Or.inl (congrArg (Tape.cell · k) (htape.trans hsame))
    · by_cases hcurrent : k = m.dataPointer
      · exact Or.inr ⟨hcurrent, hsets⟩
      · refine Or.inl ?_
        have hcells : m'.tape = m.tape.set m.dataPointer.toNat v := htape.trans hset
        rw [hcells]
        exact Tape.cell_set_ne hp hk hcurrent v
  | bracket hc hw hi => exact Or.inl (congrArg (Tape.cell · k) (congrArg Workspace.tape hw))

theorem output (hbuffer : m.sink.kind = .buffer) :
    Snapshot.Extends c m.workspace.current m.sink.bufferText? m'.sink.bufferText? := by
  have htext : m.sink.bufferText? = some m.sink.text := if_pos hbuffer
  refine ⟨m.sink.text, htext, ?_⟩
  cases h with
  | @action a t _ ha hw hi =>
    have hsink : m'.sink = t.sink := congrArg Workspace.sink hw
    rw [hsink]
    obtain ⟨rfl, hbyte, hwritten⟩ | ⟨hne, hsame⟩ := Workspace.perform_sink ha hbuffer
    · rw [hwritten, if_pos (by rfl)]
      exact Sink.push_bufferText hbuffer hbyte
    · have hinstruction : a.instruction ≠ .write := fun ha => hne (Action.instruction_injective (b := .write) ha)
      rw [hsame, if_neg hinstruction]
      exact htext
  | bracket hc hw hi =>
    have hsink : m'.sink = m.sink := congrArg Workspace.sink hw
    rw [hsink, if_neg (by rintro rfl; simp at hc)]
    exact htext

end Turns

/-- The instruction of a cycle explains what the machine shows behind it. -/
theorem explains_of_cycle (hs : m.Safe) (hv : m.program.validate = .ok ()) (hbuffer : m.sink.kind = .buffer)
    (hr : 0 ≤ reach) (hc : m.cycle = (m', .ok c)) (before : Option String) :
    Snapshot.Explains m.program m.tape.size c m.workspace.current (m.snapshot before reach)
      (m'.snapshot (some c.toString) reach) := by
  have hpointed := hs.pointed
  have hpointed' := (hs.of_cycle_ok hv hc).pointed
  have hturns := turns_of_cycle hs.workspace hc hv
  constructor
  case instruction => exact (exists_perform_of_cycle_ok hc).2.1
  case command => rfl
  case current => exact hpointed.cell?_pointer hr before
  case step => exact cycle_ok_steps hc
  case position => exact hturns.goesOn
  case pointer => exact hturns.pointer
  case output => exact hturns.output hbuffer
  case cells =>
    intro k a b ha hb
    obtain ⟨hk, rfl⟩ := hpointed.cell?_eq hr before ha
    obtain ⟨-, rfl⟩ := hpointed'.cell?_eq hr (some c.toString) hb
    obtain hsame | hset := hturns.cell hpointed.1 hk
    · exact Or.inl hsame.symm
    · exact Or.inr hset

end Machine

namespace Stepper
variable {s : Stepper} {m : Machine} {reach : Int}

/-- What a stepper shows from now on, in at most `n` steps, with the machine that it shows. A failure ends it. -/
def course : Nat → Stepper → Machine → List (Machine × Snapshot)
  | 0, _, _ => []
  | n + 1, s, m =>
    match s.next m with
    | ⟨_, _, .error _⟩ => []
    | ⟨m, s, .ok x⟩ => (m, x) :: course n s m

theorem course_of_spent (hs : s.phase = .spent) (n : Nat) (m : Machine) : s.course n m = [] := by
  cases n with
  | zero => rfl
  | succ n => simp only [course, next_of_spent hs]

/-- What a stepper shows in a row: each snapshot is that of its machine, each follows the one in front of it, and
only the last one is without an instruction. -/
structure Explained (p : Program) (size : Nat) (reach : Int) (row : List (Machine × Snapshot)) : Prop where
  depicts : ∀ a ∈ row, a.1.tape.size = size ∧ a.2.Depicts a.1 reach
  follows : row.IsChain fun a b => Snapshot.Follows p size a.2 b.2
  commands : ∀ a ∈ row.tail.dropLast, a.2.command ≠ none

namespace Explained
variable {p : Program} {size : Nat} {row : List (Machine × Snapshot)} {a b : Machine × Snapshot}

theorem single (hsize : a.1.tape.size = size) (ha : a.2.Depicts a.1 reach) : Explained p size reach [a] := by
  constructor
  · intro x hx
    obtain rfl := List.mem_singleton.mp hx
    exact ⟨hsize, ha⟩
  · exact List.isChain_singleton a
  · intro x hx
    exact absurd hx List.not_mem_nil

theorem cons (h : Explained p size reach (b :: row)) (hsize : a.1.tape.size = size) (ha : a.2.Depicts a.1 reach)
    (hfollows : Snapshot.Follows p size a.2 b.2) (hcommand : row ≠ [] → b.2.command ≠ none) :
    Explained p size reach (a :: b :: row) := by
  constructor
  · intro x hx
    obtain rfl | hx := List.mem_cons.mp hx
    · exact ⟨hsize, ha⟩
    · exact h.depicts x hx
  · exact List.isChain_cons_cons.mpr ⟨hfollows, h.follows⟩
  · intro x hx
    cases row with
    | nil => exact absurd hx List.not_mem_nil
    | cons y row =>
      obtain rfl | hx := List.mem_cons.mp hx
      · exact hcommand (List.cons_ne_nil y row)
      · exact h.commands x hx

end Explained

/-- The induction is on the steps of the stepper: each is a cycle, a failure, or the last snapshot. -/
theorem course_explained (hs : m.Safe) (hv : m.program.validate = .ok ()) (hbuffer : m.sink.kind = .buffer)
    (hr : 0 ≤ reach) (hreach : s.reach = .ok reach) (hlive : s.phase ≠ .spent) (n : Nat) (before : Option String) :
    Explained m.program m.tape.size reach ((m, m.snapshot before reach) :: s.course n m) := by
  induction n generalizing s m before with
  | zero => exact .single rfl (hs.pointed.depicts hr before)
  | succ n ih =>
    have hdepicts := hs.pointed.depicts hr
    rw [course, next_of_live hlive hv]
    cases hm : m.halted with
    | true =>
      have hfollows : Snapshot.Follows m.program m.tape.size (m.snapshot before reach) (m.snapshot none reach) :=
        ⟨fun h => absurd rfl h, fun _ => rfl⟩
      rw [advance_of_halted hreach hm]
      dsimp only
      rw [course_of_spent rfl]
      exact .cons (.single rfl (hdepicts none)) rfl (hdepicts before) hfollows (absurd rfl)
    | false =>
      rcases hc : m.cycle with ⟨m₁, e | c⟩
      · rw [advance_of_error hm hc]
        exact .single rfl (hdepicts before)
      · have hsettings := Machine.SameSettings.of_cycle hc
        have hrest := ih (s := { s with phase := .walking }) (hs.of_cycle_ok hv hc) (hsettings.validate hv)
          (hsettings.kind.trans hbuffer) hreach nofun (some c.toString)
        have hexplains := Machine.explains_of_cycle hs hv hbuffer hr hc before
        have hcommand : (m₁.snapshot (some c.toString) reach).command ≠ none := Option.some_ne_none _
        rw [hsettings.program, hsettings.size] at hrest
        rw [advance_of_ok hreach hc]
        exact hrest.cons rfl (hdepicts before) ⟨fun _ => ⟨c, _, hexplains⟩, fun h => absurd h hcommand⟩
          (fun _ => hcommand)

/-- Every snapshot that a stepper shows of a machine from its start on is explained by its instruction and by the
snapshot in front of it. -/
theorem transitions_explained {program : Program} {tape : Tape} {input : Input} {sink : Sink} {limit : Option Int}
    (hv : program.validate = .ok ()) (ht : tape.Made) (hi : input.Integral) (hbuffer : sink.kind = .buffer)
    (hm : Machine.start program tape input sink limit = .ok m) (hr : 0 ≤ reach) (n : Nat) :
    Explained program tape.size reach
      ((m, m.snapshot none reach) :: course n { reach := .ok reach } m) := by
  have hsafe := Machine.Safe.of_start ht.valid hi hm
  have hlive : ({ reach := .ok reach } : Stepper).phase ≠ .spent := nofun
  obtain ⟨rfl, -⟩ := Machine.start_ok hm
  exact course_explained hsafe hv hbuffer hr rfl hlive n none

/-- A machine that counts down from what it reads, writes all values and ends on the last of three cells. -/
def countdown : Machine where
  program := .ofSource ",[.-]<"
  tape := ⟨0, 255, 0, #[0, 0, 0]⟩
  input := ⟨[.integer 2], .exhausted⟩
  sink := .empty .buffer

theorem transitions_explained_countdown :
    countdown.program.validate = .ok () ∧ countdown.tape.Made ∧ countdown.input.Integral ∧
      Machine.start countdown.program countdown.tape countdown.input countdown.sink none = .ok countdown ∧
      Explained countdown.program 3 1
        ((countdown, countdown.snapshot none 1) :: course 12 { reach := .ok 1 } countdown) ∧
      ((course 12 { reach := .ok 1 } countdown).map fun a => (a.2.position, a.2.pointer, a.2.tapeStart, a.2.tape)) =
        [(1, 0, 0, [2, 0]), (2, 0, 0, [2, 0]), (3, 0, 0, [2, 0]), (4, 0, 0, [1, 0]), (2, 0, 0, [1, 0]),
          (3, 0, 0, [1, 0]), (4, 0, 0, [0, 0]), (5, 0, 0, [0, 0]), (6, 2, 1, [0, 0]), (6, 2, 1, [0, 0])] := by
  have hblank : Tape.blank { size := .ok 3 } = .ok countdown.tape := rfl
  have hmade : countdown.tape.Made := .blank hblank
  have hvalid : countdown.program.validate = .ok () := rfl
  have hintegral : countdown.input.Integral := by
    constructor
    · intro v hv
      exact ⟨2, List.mem_singleton.mp hv⟩
    · intro v hv
      cases hv
  have hstart : Machine.start countdown.program countdown.tape countdown.input countdown.sink none =
      .ok countdown := rfl
  have hexplained := transitions_explained hvalid hmade hintegral rfl hstart (Int.zero_le_ofNat 1) 12
  exact ⟨hvalid, hmade, hintegral, hstart, hexplained, by decide +kernel⟩

end Stepper

end Brainfuck
