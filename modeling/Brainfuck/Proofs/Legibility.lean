import Brainfuck.Debugger.Rendering
import Brainfuck.Proofs.Numeral
import Brainfuck.Proofs.Quoted

/-! Legibility. The lines of a snapshot can be read back part by part, so that two snapshots with the same text agree in
all that they show. -/
namespace Brainfuck.Debugger
open Text (zeroFilled readNumber readNumber_append quoteChars unquote unquote_quoteChars inNumeral)

variable {pointer address value : Int} {rest : List Char}

def skip (known : String) (cs : List Char) : List Char :=
  cs.drop known.length

theorem skip_append (known : String) (rest : List Char) : skip known (known.toList ++ rest) = rest := by
  rw [skip, ← String.length_toList, List.drop_left]

theorem cellText_toList (pointer address value : Int) : (cellText pointer address value).toList =
    (if address = pointer then '[' else ' ') :: ((zeroFilled 0 address).toList ++
      ':' :: ((zeroFilled 3 value).toList ++ [if address = pointer then ']' else ' '])) := by
  unfold cellText
  split
  · simp [toString, Text.repr_eq_zeroFilled]
  · simp [toString, Text.repr_eq_zeroFilled]

def readCell (cs : List Char) : Int × Int :=
  ((readNumber cs.tail).1, (readNumber (readNumber cs.tail).2.tail).1)

def afterCell (cs : List Char) : List Char :=
  (readNumber (readNumber cs.tail).2.tail).2.tail

/-- A cell is read back, whether it is the current one or not. -/
theorem readCell_append (pointer address value : Int) (rest : List Char) :
    readCell ((cellText pointer address value).toList ++ rest) = (address, value) ∧
      afterCell ((cellText pointer address value).toList ++ rest) = rest := by
  simp only [cellText_toList, List.cons_append, List.append_assoc, List.nil_append, readCell, afterCell, List.tail_cons]
  rw [readNumber_append (by simp [inNumeral]), List.tail_cons, readNumber_append (by split <;> simp [inNumeral])]
  exact ⟨rfl, rfl⟩

def cellChars (pointer : Int) : Int → List Int → List Char
  | _, [] => []
  | address, [value] => (cellText pointer address value).toList
  | address, value :: values => (cellText pointer address value).toList ++ ' ' :: cellChars pointer (address + 1) values

theorem cellChars_cons_cons (pointer address value v : Int) (vs : List Int) :
    cellChars pointer address (value :: v :: vs) =
      (cellText pointer address value).toList ++ ' ' :: cellChars pointer (address + 1) (v :: vs) :=
  rfl

theorem tapeText_toList (x : Snapshot) : (tapeText x).toList = cellChars x.pointer x.tapeStart x.tape := by
  have hzip : ∀ (values : List Int) (k : Nat), [' '].intercalate ((values.zipIdx k).map fun cell =>
      (cellText x.pointer (x.tapeStart + cell.2) cell.1).toList) = cellChars x.pointer (x.tapeStart + k) values := by
    intro values
    induction values with
    | nil => intro k; rfl
    | cons value values ih =>
      intro k
      cases values with
      | nil => simp [cellChars]
      | cons v vs =>
        have hnext : x.tapeStart + (k + 1 : Nat) = x.tapeStart + k + 1 := by omega
        have hrest := ih (k + 1)
        rw [hnext, List.zipIdx_cons, List.map_cons] at hrest
        rw [List.zipIdx_cons, List.zipIdx_cons, List.map_cons, List.map_cons, List.intercalate_cons_cons, hrest,
          List.append_assoc, List.singleton_append, cellChars_cons_cons]
  have htape := hzip x.tape 0
  rw [Int.natCast_zero, Int.add_zero] at htape
  rw [tapeText, String.toList_intercalate, List.map_map, ← htape]
  rfl

/-- The values of the cells in front, read in at most `fuel` steps: cells follow one another behind blanks. -/
def readCells : Nat → List Char → List Int
  | 0, _ => []
  | fuel + 1, cs =>
    (readCell cs).2 :: if (afterCell cs).head? = some ' ' then readCells fuel (afterCell cs).tail else []

theorem length_le_length_cellChars (values : List Int) : values.length ≤ (cellChars pointer address values).length := by
  have hpos : ∀ a v, 0 < (cellText pointer a v).toList.length := by simp [cellText_toList]
  fun_induction cellChars pointer address values with
  | case1 => exact Nat.le_refl 0
  | case2 address value => exact hpos address value
  | case3 address value values _ ih =>
    rw [List.length_append, List.length_cons, List.length_cons]
    have := hpos address value
    omega

/-- The cells of a tape are read back if no blank follows them. -/
theorem readCells_append {fuel : Nat} {values : List Int} (hfuel : values.length ≤ fuel) (hne : values ≠ [])
    (hrest : rest.head? ≠ some ' ') :
    readCells fuel (cellChars pointer address values ++ rest) = values ∧
      (readCell (cellChars pointer address values ++ rest)).1 = address := by
  induction values generalizing fuel address with
  | nil => exact absurd rfl hne
  | cons value values ih =>
    obtain ⟨fuel, rfl⟩ : ∃ k, fuel = k + 1 := ⟨fuel - 1, by rw [List.length_cons] at hfuel; omega⟩
    have hfuel : values.length ≤ fuel := by simpa using hfuel
    cases values with
    | nil =>
      obtain ⟨hcell, hafter⟩ := readCell_append pointer address value rest
      rw [cellChars, readCells, hcell, hafter, if_neg hrest]
      exact ⟨rfl, rfl⟩
    | cons v vs =>
      obtain ⟨hcell, hafter⟩ :=
        readCell_append pointer address value (' ' :: (cellChars pointer (address + 1) (v :: vs) ++ rest))
      have hvalues : readCells fuel (cellChars pointer (address + 1) (v :: vs) ++ rest) = v :: vs :=
        (ih hfuel (List.cons_ne_nil v vs)).1
      rw [cellChars_cons_cons, List.append_assoc, List.cons_append, readCells, hcell, hafter, List.head?_cons, if_pos rfl,
        List.tail_cons, hvalues]
      exact ⟨rfl, rfl⟩

def outputChars (output : String) : List Char :=
  if output = "" then [] else "output=".toList ++ (quoteChars Text.isPrintable output.toList ++ "\n".toList)

def readOutput (cs : List Char) : String × List Char :=
  if cs.head? = some 'o' then
    (String.ofList (unquote (skip "output=" cs)).1, skip "\n" (unquote (skip "output=" cs)).2)
  else ("", cs)

/-- An output is read back, and so is a missing one if nothing that follows looks like one. -/
theorem readOutput_append {output : String} (hrest : rest.head? ≠ some 'o') :
    readOutput (outputChars output ++ rest) = (output, rest) := by
  unfold outputChars
  split_ifs with hempty
  · rw [List.nil_append, readOutput, if_neg hrest, hempty]
  · have hhead : ∀ cs, ("output=".toList ++ cs).head? = some 'o' := by simp
    rw [List.append_assoc, List.append_assoc, readOutput, if_pos (hhead _), skip_append, unquote_quoteChars, skip_append,
      String.ofList_toList]

theorem stateText_toList (x : Snapshot) (code : String) : (stateText x code).toList =
    "step=".toList ++ ((zeroFilled 0 x.step).toList ++ (" pc=".toList ++ ((zeroFilled 0 x.position).toList ++
      ("/".toList ++ ((zeroFilled 0 x.codeLength).toList ++ (" command=".toList ++
        (quoteChars Text.isPrintable (x.command.getD "(init)").toList ++ (" pointer=".toList ++
          ((zeroFilled 0 x.pointer).toList ++ ("\n".toList ++ (outputChars (x.output.getD "") ++ ("tape=".toList ++
            (cellChars x.pointer x.tapeStart x.tape ++
              ('\n' :: ("code=".toList ++ (codeWindow code x.position codeReach).toList))))))))))))))) := by
  rw [← tapeText_toList]
  unfold stateText stateLines outputChars
  by_cases hempty : x.output.getD "" = ""
  · simp [toString, Text.repr_eq_zeroFilled, Text.quote, hempty]
  · simp [toString, Text.repr_eq_zeroFilled, Text.quote, hempty]

/-- The snapshot that a text shows, read part by part from the first one on. -/
def readState (text : String) : Snapshot :=
  let step := readNumber (skip "step=" text.toList)
  let position := readNumber (skip " pc=" step.2)
  let codeLength := readNumber (skip "/" position.2)
  let command := unquote (skip " command=" codeLength.2)
  let pointer := readNumber (skip " pointer=" command.2)
  let output := readOutput (skip "\n" pointer.2)
  let tape := skip "tape=" output.2
  { step := step.1
    position := position.1
    command := if String.ofList command.1 = "(init)" then none else some (String.ofList command.1)
    pointer := pointer.1
    tapeStart := (readCell tape).1
    tape := readCells tape.length tape
    output := some output.1
    codeLength := codeLength.1 }

/-- A snapshot as its text shows it: a missing output as an empty one. -/
def shown (x : Snapshot) : Snapshot :=
  { x with output := some (x.output.getD "") }

/-- Snapshots that show a cell, and that do not show the words for a missing instruction as one. -/
structure Legible (x : Snapshot) : Prop where
  tape : x.tape ≠ []
  command : x.command ≠ some "(init)"

theorem Legible.of_instruction {x : Snapshot} {c : Option Instruction} (htape : x.tape ≠ [])
    (hcommand : x.command = c.map Instruction.toString) : Legible x := by
  refine ⟨htape, ?_⟩
  rw [hcommand]
  cases c with
  | none => nofun
  | some c => cases c <;> decide

theorem Legible.readCommand {x : Snapshot} (hx : Legible x) :
    (if x.command.getD "(init)" = "(init)" then none else some (x.command.getD "(init)")) = x.command := by
  obtain ⟨-, hcommand⟩ := hx
  cases hc : x.command with
  | none => rfl
  | some c =>
    have hne : c ≠ "(init)" := fun heq => hcommand (by rw [hc, heq])
    exact if_neg hne

/-- Every part of a snapshot is read back from its text. -/
theorem readState_stateText {x : Snapshot} (hx : Legible x) (code : String) :
    readState (stateText x code) = shown x := by
  -- no tape is longer than its line, so that the reader does not stop before its end
  have hcells : ∀ cs, readCells (cellChars x.pointer x.tapeStart x.tape ++ '\n' :: cs).length
      (cellChars x.pointer x.tapeStart x.tape ++ '\n' :: cs) = x.tape ∧
        (readCell (cellChars x.pointer x.tapeStart x.tape ++ '\n' :: cs)).1 = x.tapeStart := by
    intro cs
    refine readCells_append ?_ hx.tape (by simp)
    have hlength : x.tape.length ≤ (cellChars x.pointer x.tapeStart x.tape).length := length_le_length_cellChars x.tape
    rw [List.length_append]
    omega
  have houtput : ∀ cs, readOutput (outputChars (x.output.getD "") ++ ("tape=".toList ++ cs)) =
      (x.output.getD "", "tape=".toList ++ cs) := fun cs => readOutput_append (by simp)
  rw [readState, stateText_toList]
  simp (disch := simp [inNumeral]) only [skip_append, readNumber_append, unquote_quoteChars, houtput, hcells,
    String.ofList_toList, hx.readCommand, shown]

/-- The text of a snapshot shows all of it, whatever its numbers, its cells and its output are: it can be read back, and
two snapshots have the same text exactly if they are the same, but for an empty output, which is shown as none. -/
theorem stateText_eq_iff {x y : Snapshot} (hx : Legible x) (hy : Legible y) (code : String) :
    readState (stateText x code) = shown x ∧
      (stateText x code = stateText y code ↔
        { x with output := none } = { y with output := none } ∧ x.output.getD "" = y.output.getD "") := by
  refine ⟨readState_stateText hx code, ?_, ?_⟩
  · intro h
    have hshown : shown x = shown y := by rw [← readState_stateText hx code, h, readState_stateText hy code]
    rw [shown, shown, Snapshot.mk.injEq, Option.some.injEq] at hshown
    obtain ⟨hstep, hposition, hcommand, hpointer, hstart, htape, houtput, hlength⟩ := hshown
    rw [Snapshot.mk.injEq]
    exact ⟨⟨hstep, hposition, hcommand, hpointer, hstart, htape, rfl, hlength⟩, houtput⟩
  · rintro ⟨hsame, houtput⟩
    have hshown : ∀ z : Snapshot, stateText z code =
        stateText { { z with output := none } with output := some (z.output.getD "") } code := fun _ => rfl
    rw [hshown x, hshown y, hsame, houtput]

/-- A snapshot with an empty output and a sign in front of a short number. -/
def signed : Snapshot where
  step := 3
  position := 4
  command := some "."
  pointer := 1
  tapeStart := 0
  tape := [-1, 12]
  output := some ""
  codeLength := 5

/-- The same text stands for a missing output, and another one for a text that looks like the next line. -/
theorem stateText_eq_iff_signed :
    Legible signed ∧ Legible { signed with output := none } ∧ Legible { signed with output := some "'\ntape=\"" } ∧
      readState (stateText signed "+++.,") = shown signed ∧
      stateText signed "+++.," = stateText { signed with output := none } "+++.," ∧
      stateText signed "+++.," ≠ stateText { signed with output := some "'\ntape=\"" } "+++.," := by
  have hsigned : Legible signed := .of_instruction (c := some .write) (List.cons_ne_nil _ _) rfl
  have hnone : Legible { signed with output := none } := ⟨hsigned.tape, hsigned.command⟩
  have hsome : Legible { signed with output := some "'\ntape=\"" } := ⟨hsigned.tape, hsigned.command⟩
  obtain ⟨hread, hsame⟩ := stateText_eq_iff hsigned hnone "+++.,"
  refine ⟨hsigned, hnone, hsome, hread, hsame.mpr ⟨rfl, rfl⟩, ?_⟩
  intro h
  obtain ⟨-, houtput⟩ := (stateText_eq_iff hsigned hsome _).2.mp h
  exact absurd houtput (by decide)

end Brainfuck.Debugger
