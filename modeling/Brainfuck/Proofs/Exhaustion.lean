import Brainfuck.Proofs.LockStep
import Brainfuck.Proofs.Outcome
import Brainfuck.Proofs.Transitions

/-! Exhaustion. A machine whose input ends goes in lock step with one whose input goes on, up to the read that finds
nothing. So bytes may be piped into a program or given to it as a text, and only behind the last of them is there a
difference. -/
namespace Brainfuck

namespace Input
variable {lo hi : Int} {input : Input}

def endingIn (input : Input) (ending : Ending) : Input :=
  { input with ending }

/-- What lies behind the pending values makes no difference to a search that finds one of them. -/
theorem readWithin_endingIn (hended : input.ending = .ended)
    (h : (input.readWithin lo hi).outcome ≠ .error (.fault .inputEnded)) (ending : Ending) :
    (input.endingIn ending).readWithin lo hi =
      { input.readWithin lo hi with rest := (input.readWithin lo hi).rest.endingIn ending } := by
  obtain ⟨pending, ending'⟩ := input
  obtain rfl : ending' = .ended := hended
  induction pending with
  | nil => exact absurd rfl h
  | cons v vs ih =>
    simp only [endingIn, readWithin, seek] at ih h ⊢
    cases hv : v.between? lo hi with
    | none => rfl
    | some fits =>
      cases fits with
      | true => rfl
      | false =>
        rw [hv] at h
        rw [ih h]

/-- Behind a search that fails no value is left that fits. -/
theorem firstWithin_of_search_error {e : Stop} (h : (input.search lo hi).1 = .error e) :
    firstWithin lo hi input.pending = none := by
  unfold search at h
  split at h
  · cases h
  · assumption

end Input

namespace Machine
variable {m m₁ x y : Machine} {n fuel : ℕ} {ending : Ending}

def endingIn (m : Machine) (ending : Ending) : Machine :=
  m.refed (m.input.endingIn ending) m.journal

/-- A machine whose input ends, but does so in none of the next `n` cycles. -/
structure Supplied (m : Machine) (n : ℕ) : Prop where
  ended : m.input.ending = .ended
  found : ∀ k x, k < n → m.after k = some x → x.halted = false → x.cycle.2 ≠ .error (.fault .inputEnded)

theorem receive_endingIn (hended : m.input.ending = .ended) (h : m.receive.2 ≠ .error (.fault .inputEnded))
    (ending : Ending) : (m.endingIn ending).receive = (m.receive.1.endingIn ending, m.receive.2) := by
  have houtcome : (m.input.readWithin m.tape.minimum m.tape.maximum).outcome ≠ .error (.fault .inputEnded) := by
    intro houtcome
    refine h ?_
    simp only [receive, houtcome]
  have hread : (m.endingIn ending).input.readWithin (m.endingIn ending).tape.minimum
      (m.endingIn ending).tape.maximum = _ := Input.readWithin_endingIn hended houtcome ending
  unfold receive
  rw [hread]
  generalize m.input.readWithin m.tape.minimum m.tape.maximum = r
  obtain ⟨outcome, rest, discarded⟩ := r
  cases outcome with
  | error e => rfl
  | ok v =>
    let m₁ := m.refed rest (m.journal ++ (discarded.map Event.discarded).toArray)
    obtain ⟨tape, h⟩ := m₁.store_footprint v
    have hending : (m₁.store v).1.endingIn ending = (m₁.store v).1.refed (rest.endingIn ending) m₁.journal := by
      rw [h]
      rfl
    exact (m₁.store_refed (rest.endingIn ending) m₁.journal v).trans (Prod.ext hending.symm rfl)

theorem perform_endingIn {c : Instruction} (hended : m.input.ending = .ended)
    (h : (m.perform c).2 ≠ .error (.fault .inputEnded)) (ending : Ending) :
    (m.endingIn ending).perform c = ((m.perform c).1.endingIn ending, (m.perform c).2) := by
  by_cases hread : c = .read
  · subst hread
    exact receive_endingIn hended h ending
  · have hrefed := m.perform_refed (m.input.endingIn ending) m.journal hread
    obtain ⟨hinput, hjournal, -, -⟩ := m.perform_footprint c
    have hending : (m.perform c).1.endingIn ending = (m.perform c).1.refed (m.input.endingIn ending) m.journal := by
      rw [endingIn, hinput hread, hjournal hread]
    exact hrefed.trans (Prod.ext hending.symm rfl)

theorem cycle_endingIn (hended : m.input.ending = .ended) (h : m.cycle.2 ≠ .error (.fault .inputEnded))
    (ending : Ending) : (m.endingIn ending).cycle = (m.cycle.1.endingIn ending, m.cycle.2) := by
  refine cycle_changed (g := (endingIn · ending)) rfl rfl rfl (fun _ => rfl) ?_
  intro c hl hi
  refine perform_endingIn hended ?_ ending
  intro hfails
  exact h (by rw [cycle_of_error hl hi (Prod.ext rfl hfails)])

theorem Supplied.later {c : Instruction} (h : m.Supplied (n + 1)) (hc : m.cycle = (m₁, .ok c)) : m₁.Supplied n := by
  constructor
  · exact (SameSettings.of_cycle hc).ending.trans h.ended
  · intro k x hk hx hm
    exact h.found (k + 1) x (Nat.succ_lt_succ hk) (by rw [after_succ hc, hx]) hm

/-- Up to the read that finds nothing it makes no difference how the input ends. -/
theorem commutes_endingIn (ending : Ending) : Commutes (endingIn · ending) fun n m => m.Supplied n where
  program _ := rfl
  halted _ := rfl
  cycle h hm := cycle_endingIn h.ended (h.found 0 _ (Nat.succ_pos _) rfl hm) ending
  later h hc := h.later hc

/-- The cycles in front of one that fails do not fail. -/
theorem Supplied.of_after (hended : m.input.ending = .ended) (h : m.after n = some x) : m.Supplied n := by
  refine ⟨hended, ?_⟩
  intro k z hk hz hm he
  obtain ⟨j, rfl⟩ := Nat.exists_eq_add_of_lt hk
  rw [Nat.add_assoc, after_add hz] at h
  obtain ⟨m₁, c, hc, -⟩ := exists_cycle_of_after_succ h
  rw [hc] at he
  cases he

/-- A loop that does not fail for want of input has been fed up to its end. -/
theorem Supplied.of_loop (hended : m.input.ending = .ended) (h : (loop fuel m).2 ≠ .error (.fault .inputEnded)) :
    m.Supplied fuel := by
  refine ⟨hended, ?_⟩
  intro k z hk hz hm he
  have hends : m.Ends k z.cycle.1 (.error (.fault .inputEnded)) := .fails hz hm (Prod.ext rfl he)
  exact h (by rw [loop_of_ends hends hk])

/-- A machine `x` is about to read, its input has come to its end, and nothing in it fits. The machine `x'` is in the
same state, but for the default of its tape behind the input: it stores the default in the current cell, and goes on. -/
structure Parts (x x' : Machine) : Prop where
  state : x' = { x with input := ⟨x.input.pending, .repeats (.integer x.tape.default)⟩ }
  instruction : x.program.instructionAt (.integer x.instructionPointer) = .ok .read
  fails : x.cycle.2 = .error (.fault .inputEnded)
  stores : ∃ y, x'.cycle = (y, .ok .read) ∧ x'.Stores y x.tape.default

section Wanting
variable (hs : x.Safe) (hv : x.program.validate = .ok ()) (hm : x.halted = false)
  (hc : x.cycle = (y, .error (.fault .inputEnded)))
include hs hv hm hc

/-- Only a read fails for want of input. -/
theorem Safe.perform_read : x.limitReached = false ∧
    x.program.instructionAt (.integer x.instructionPointer) = .ok .read ∧
      x.perform .read = (y, .error (.fault .inputEnded)) := by
  have hread : x.program.instructionAt (.integer x.instructionPointer) = .ok .read := by
    obtain ⟨hpointer, -⟩ := cycle_error_counters hc
    obtain ⟨-, hblocked⟩ := hs.of_cycle_error hv hm hc
    cases hblocked with
    | input hread _ => rwa [(SameSettings.of_cycle hc).program, hpointer] at hread
  obtain ⟨-, he | ⟨f, hi, -⟩⟩ | ⟨hl, c, hi, hp⟩ := cycle_error_cases hc
  · cases he
  · cases hread.symm.trans hi
  · obtain rfl := Except.ok.inj (hread.symm.trans hi)
    exact ⟨hl, hread, hp⟩

theorem Safe.parts : x.Parts (x.endingIn (.repeats (.integer x.tape.default))) := by
  obtain ⟨hl, hread, hp⟩ := hs.perform_read hv hm hc
  have hsearch : (x.input.search x.tape.minimum x.tape.maximum).1 = .error (.fault .inputEnded) := by
    have hreceive : (x.perform .read).2 = x.workspace.receive.2 := (perform_action hs.workspace .read).1
    rw [hp] at hreceive
    unfold Workspace.receive at hreceive
    split at hreceive
    · cases hreceive
    · next hfound =>
      obtain rfl := Except.error.inj hreceive
      exact congrArg Prod.fst hfound
  have hvalid : (x.endingIn (.repeats (.integer x.tape.default))).workspace.Valid := by
    refine ⟨hs.workspace.tape, hs.workspace.pointer_nonneg, hs.workspace.pointer_lt, hs.workspace.input.pending, ?_⟩
    rintro v ⟨⟩
    exact ⟨_, rfl⟩
  have hfound : (x.input.endingIn (.repeats (.integer x.tape.default))).search x.tape.minimum x.tape.maximum =
      (.ok x.tape.default, ⟨[], .repeats (.integer x.tape.default)⟩) := by
    have hnone : Input.firstWithin x.tape.minimum x.tape.maximum x.input.pending = none :=
      Input.firstWithin_of_search_error hsearch
    have hdefault : x.tape.minimum ≤ x.tape.default ∧ x.tape.default ≤ x.tape.maximum := hs.workspace.tape.default_mem
    simp only [Input.search, Input.endingIn, hnone, Ending.within, if_pos hdefault]
  exact ⟨rfl, hread, by rw [hc], cycle_read_of_search hvalid hl hread hfound⟩

end Wanting

section Sink

theorem send_text (m : Machine) : ∃ rest, m.send.1.sink.text = m.sink.text ++ rest := by
  unfold send
  split
  · exact ⟨"", String.append_empty.symm⟩
  · split
    · exact ⟨"", String.append_empty.symm⟩
    · next n _ => exact ⟨String.singleton (Char.ofNat n.toNat), m.sink.push_text n⟩

theorem perform_text (m : Machine) (c : Instruction) : ∃ rest, (m.perform c).1.sink.text = m.sink.text ++ rest := by
  by_cases hc : c = .write
  · subst hc
    exact m.send_text
  · exact ⟨"", by rw [(m.perform_footprint c).sink hc, String.append_empty]⟩

theorem cycle_text (m : Machine) : ∃ rest, m.cycle.1.sink.text = m.sink.text ++ rest :=
  cycle_induction (Q := fun x => ∃ rest, x.sink.text = m.sink.text ++ rest) ⟨"", String.append_empty.symm⟩
    m.perform_text fun _ h => h

/-- What has been written stays written. -/
theorem loop_text {text : String} (h : ∃ rest, m.sink.text = text ++ rest) (fuel : ℕ) :
    ∃ rest, (loop fuel m).1.sink.text = text ++ rest := by
  refine loop_induction (Q := fun m => ∃ rest, m.sink.text = text ++ rest) ?_ h fuel
  rintro m ⟨rest, hrest⟩
  obtain ⟨rest', hrest'⟩ := m.cycle_text
  exact ⟨rest ++ rest', by rw [hrest', hrest, String.append_assoc]⟩

end Sink

section Run
variable (hended : m.input.ending = .ended)

theorem leave_text (r : Machine × Except Stop Unit) : (leave r).1.sink.text = r.1.sink.text := by
  obtain ⟨m, e | u⟩ := r
  · rfl
  · rfl

theorem run_result (hv : m.program.validate = .ok ()) (fuel : ℕ) : (m.run fuel).2 = (loop fuel m.entered).2 := by
  rw [run_of_valid hv]
  exact (leave_bare (loop fuel m.entered).1 (loop fuel m.entered).2).2

include hended

/-- A run that does not fail for want of input is the same with another ending. -/
theorem run_endingIn (h : (m.run fuel).2 ≠ .error (.fault .inputEnded)) (ending : Ending) :
    (m.endingIn ending).run fuel = ((m.run fuel).1.endingIn ending, (m.run fuel).2) := by
  cases hv : m.program.validate with
  | error f =>
    have hinvalid : (m.endingIn ending).program.validate = .error f := hv
    rw [run_of_invalid hv, run_of_invalid hinvalid]
  | ok u =>
    rw [run_result hv] at h
    have hentered : m.entered.input.ending = .ended := hended
    exact (commutes_endingIn ending).run (fun _ _ => rfl) rfl (fun _ => rfl) (Supplied.of_loop hentered h)

/-- A run that fails for want of input comes to a read at which it parts from one that goes on with the default. What
has been written up to there, the other run has written as well, whatever becomes of it. -/
theorem exists_parts (hs : m.Safe) (hv : m.program.validate = .ok ())
    (h : (m.run fuel).2 = .error (.fault .inputEnded)) :
    ∃ n x x', m.entered.after n = some x ∧
      (m.endingIn (.repeats (.integer m.tape.default))).entered.after n = some x' ∧ x.Parts x' ∧
        x.sink.text = (m.run fuel).1.sink.text ∧
          ∀ fuel', n ≤ fuel' → ∃ rest,
            ((m.endingIn (.repeats (.integer m.tape.default))).run fuel').1.sink.text =
              (m.run fuel).1.sink.text ++ rest := by
  have hentered : m.entered.input.ending = .ended := hended
  have hv' : (m.endingIn (.repeats (.integer m.tape.default))).program.validate = .ok () := hv
  rw [run_result hv] at h
  rcases hloop : loop fuel m.entered with ⟨y, r⟩
  rw [hloop] at h
  obtain rfl : r = .error (.fault .inputEnded) := h
  obtain ⟨n, hends⟩ := ends_of_loop hloop nofun
  cases hends with
  | @fails x _ hn hm hc =>
    have hsafe : x.Safe := Safe.after (hs.record _) hv hn
    have hsettings := after_sameSettings hn
    have hn' : (m.entered.endingIn (.repeats (.integer m.tape.default))).after n = _ :=
      (commutes_endingIn _).after (Supplied.of_after hentered hn)
    rw [hn] at hn'
    have hparts := hsafe.parts (hsettings.validate hv) hm hc
    have hdefault : x.tape.default = m.tape.default := hsettings.default
    rw [hdefault] at hparts
    have htext : x.sink.text = (m.run fuel).1.sink.text := by
      have hsink := (x.perform_footprint .read).sink nofun
      rw [(hsafe.perform_read (hsettings.validate hv) hm hc).2.2] at hsink
      rw [run_of_valid hv, leave_text, hloop, hsink]
    refine ⟨n, x, _, hn, hn', hparts, htext, ?_⟩
    intro fuel' hfuel
    obtain ⟨k, rfl⟩ := Nat.exists_eq_add_of_le hfuel
    have hafter : (m.endingIn (.repeats (.integer m.tape.default))).entered.after n = _ := hn'
    rw [run_of_valid hv', leave_text, loop_add hafter, ← htext]
    exact loop_text ⟨"", String.append_empty.symm⟩ k

end Run

end Machine

/-- The text whose characters have the numbers of some bytes. -/
def Text.latin1 (bytes : List UInt8) : String :=
  String.ofList (bytes.map fun b => Char.ofNat b.toNat)

theorem Input.codePoints_latin1 (bytes : List UInt8) : codePoints (Text.latin1 bytes) = octets bytes := by
  rw [codePoints, Text.latin1, String.toList_ofList, octets, List.map_map]
  refine List.map_congr_left fun b _ => ?_
  have hvalid : b.toNat.isValidChar := Or.inl (Nat.lt_trans b.toNat_lt (by decide))
  exact congrArg (fun n : ℕ => Datum.integer n) (Text.toNat_ofNat hvalid)

namespace CommandLine.Interpreter
variable {b : String} {f : Fault}

def wanting : String := "Input error: End of input stream\n"

/-- Only a run that fails at the end of its input complains of it. -/
theorem silent_errors_iff {r : Except Stop Unit} :
    (silent b r).errors = wanting ↔ r = .error (.fault .inputEnded) := by
  cases r with
  | ok u => simp [show silent b (.ok u) = _ from silent_ok, wanting]
  | error e =>
    cases e with
    | unfinished => simp [silent_unfinished, wanting]
    | fault f =>
      have hne : f.kind ≠ .endOfInput → f ≠ .inputEnded := fun h => mt (congrArg Fault.kind) h
      by_cases hkind : f.kind = .endOfInput
      · have hmachine : f.isMachine = false := by
          rw [Fault.isMachine, hkind]
          rfl
        have hended : s!"Input error: {Fault.inputEnded.message}\n" = wanting := by decide +kernel
        have hexhausted : s!"Input error: {Fault.inputExhausted.message}\n" ≠ wanting := by decide +kernel
        rw [silent_of_endOfInput hmachine hkind]
        cases f with
        | inputEnded => exact iff_of_true hended rfl
        | inputExhausted => exact iff_of_false hexhausted (by simp)
        | _ => cases hkind
      · have hfault : ¬ (Except.error (Stop.fault f) : Except Stop Unit) = .error (.fault .inputEnded) := by
          simpa using hne hkind
        cases hmachine : f.isMachine with
        | false => simp [silent_of_not_isMachine hmachine hkind, wanting, hfault]
        | true =>
          rw [silent_of_isMachine hmachine]
          refine iff_of_false ?_ hfault
          -- what stands in front of the first colon is no name of a kind
          intro hreport
          have hline : f.kind.name ++ ": " ++ f.message ++ "\n" = wanting := hreport
          have hlist : f.kind.name.toList ++ ':' :: ' ' :: (f.message.toList ++ ['\n']) = wanting.toList := by
            simpa using congrArg String.toList hline
          have hname := congrArg (List.takeWhile (· != ':')) hlist
          rw [Fault.Kind.takeWhile_name] at hname
          have hword : f.kind.name = "Input error" := String.toList_injective (hname.trans (by decide))
          generalize f.kind = k at hword
          cases k <;> simp [Fault.Kind.name] at hword

namespace Options
variable {o : Options} {files : Files} {room : Room}

def given (o : Options) (bytes : List UInt8) : Options :=
  { o with input := some (Text.latin1 bytes) }

theorem choose_kind {path code : Option String} (h : Program.choose files path code = .error f) :
    f.kind ≠ .endOfInput := by
  unfold Program.choose at h
  split at h
  · obtain rfl := Except.error.inj h
    decide
  · obtain rfl := Except.error.inj h
    decide
  · next path =>
    cases hload : Program.load files path with
    | ok loaded =>
      rw [hload] at h
      cases h
    | error f' =>
      rw [hload] at h
      obtain rfl := Except.error.inj h
      unfold Program.load at hload
      split at hload
      · obtain rfl := Except.error.inj hload
        decide
      · dsimp only at hload
        split at hload
        · obtain rfl := Except.error.inj hload
          simp [Fault.kind]
        · cases hload
  · cases h

/-- All limits but negative ones are fit for a machine. -/
theorem start_cases (limit : Option Int) :
    (∃ n, ∀ program tape input sink, Machine.start program tape input sink limit = .error (.negativeLimit n)) ∨
      ∀ program tape input sink, Machine.start program tape input sink limit =
        .ok { program, tape, input, sink, maxSteps := limit } := by
  cases limit with
  | none => exact Or.inr fun _ _ _ _ => rfl
  | some n =>
    by_cases hn : n < 0
    · exact Or.inl ⟨n, fun _ _ _ _ => by simp only [Machine.start, if_pos hn]⟩
    · exact Or.inr fun _ _ _ _ => by simp only [Machine.start, if_neg hn]

/-- Only the machine's input depends on what is read. -/
theorem prepare_withInput (files : Files) (room : Room) (piped : List UInt8) (o : Options) (input : Option String) :
    prepare files piped { o with input }.settings room =
      match Tape.blank o.settings.layout room with
      | .error f => ([], .error f)
      | .ok tape =>
        match Program.choose files o.source o.code with
        | .error f => ([], .error f)
        | .ok (program, loading) =>
          (loading, Machine.start program tape ({ o with input }.settings.inputFor tape piped) (.empty .stream)
            o.maxSteps) :=
  rfl

/-- Whether there is something to run depends on nothing that is read by it. -/
theorem exists_prepared (files : Files) (room : Room) (o : Options) :
    (∃ f events, f.kind ≠ .endOfInput ∧ (∀ e ∈ events, e.level = .debug) ∧
        ∀ input piped, prepare files piped { o with input }.settings room = (events, .error f)) ∨
      ∃ program tape events, tape.Made ∧ (∀ e ∈ events, e.level = .debug) ∧
        (∀ input, Machine.start program tape input (.empty .stream) o.maxSteps =
          .ok { program, tape, input, sink := .empty .stream, maxSteps := o.maxSteps }) ∧
        ∀ input piped, prepare files piped { o with input }.settings room =
          (events, .ok {
            program, tape
            input := { o with input }.settings.inputFor tape piped
            sink := .empty .stream
            maxSteps := o.maxSteps }) := by
  simp only [prepare_withInput]
  cases hblank : Tape.blank o.settings.layout room with
  | error f =>
    have hkind : f.kind ≠ .endOfInput := by
      intro hinput
      have hkind := Tape.blank_kind hblank
      simp [hinput] at hkind
    exact Or.inl ⟨f, [], hkind, by simp, fun _ _ => rfl⟩
  | ok tape =>
    cases hchoose : Program.choose files o.source o.code with
    | error f => exact Or.inl ⟨f, [], choose_kind hchoose, by simp, fun _ _ => rfl⟩
    | ok chosen =>
      obtain ⟨program, events⟩ := chosen
      obtain ⟨n, hstart⟩ | hstart := start_cases o.maxSteps
      · refine Or.inl ⟨.negativeLimit n, events, by simp [Fault.kind], choose_debug hchoose, ?_⟩
        intro input piped
        exact congrArg (Prod.mk events) (hstart _ _ _ _)
      · refine Or.inr ⟨program, tape, events, .blank hblank, choose_debug hchoose, fun _ => hstart _ _ _ _, ?_⟩
        intro input piped
        exact congrArg (Prod.mk events) (hstart _ _ _ _)

/-- There is nothing to run, whether some bytes are piped in or given, or there is a machine with either of them, and
these machines differ in nothing but how their inputs end. -/
theorem prepare_given (hinput : o.input = none) (files : Files) (room : Room) (bytes piped : List UInt8) :
    (∃ f events, f.kind ≠ .endOfInput ∧ (∀ e ∈ events, e.level = .debug) ∧
        prepare files bytes o.settings room = (events, .error f) ∧
          prepare files piped (o.given bytes).settings room = (events, .error f)) ∨
      ∃ (m : Machine) (events : List Event), m.Safe ∧ m.Quiet ∧ m.input.ending = .ended ∧
        (∀ e ∈ events, e.level = .debug) ∧ prepare files bytes o.settings room = (events, .ok m) ∧
          prepare files piped (o.given bytes).settings room =
            (events, .ok (m.endingIn (.repeats (.integer m.tape.default)))) := by
  have hpiped : o = { o with input := none } := by rw [← hinput]
  obtain ⟨f, events, hkind, hevents, hprepare⟩ | ⟨program, tape, events, htape, hevents, hstart, hprepare⟩ :=
    exists_prepared files room o
  · have hm := hprepare none bytes
    rw [← hpiped] at hm
    exact Or.inl ⟨f, events, hkind, hevents, hm, hprepare _ piped⟩
  · have hm := hprepare none bytes
    have hm' := hprepare (some (Text.latin1 bytes)) piped
    let m : Machine :=
      { program, tape, input := .ofStream bytes, sink := .empty .stream, maxSteps := o.maxSteps }
    have hsafe : m.Safe := .of_start htape.valid (Input.integral_ofStream bytes) (hstart _)
    have hquiet : m.Quiet := by simp [Machine.Quiet, m]
    have hgiven : Settings.inputFor (o.given bytes).settings tape piped =
        m.input.endingIn (.repeats (.integer tape.default)) :=
      congrArg (fun vs => (⟨vs, .repeats (.integer tape.default)⟩ : Input)) (Input.codePoints_latin1 bytes)
    refine Or.inr ⟨m, events, hsafe, hquiet, rfl, hevents, ?_, ?_⟩
    · rw [hpiped]
      exact hm
    · rw [given, hm', ← given, hgiven]
      rfl

/-- How a command line into which some bytes are piped compares with one that has them as its input, by the report on a
run in `fuel` cycles and by those on the other run. If it ends, and does not want for input, so does the other one, with
the same report. If it wants for input, it has come to a read at which the other one, in the same state, stores the
default and goes on, and whatever becomes of that one, it has written the same up to there. -/
structure Continues (files : Files) (room : Room) (o o' : Options) (bytes piped : List UInt8) (fuel : ℕ)
    (report : Report) (report' : ℕ → Report) : Prop where
  same : report.exit ≠ .error .unfinished → report.errors ≠ wanting →
    ∀ fuel', fuel ≤ fuel' → report' fuel' = report
  parts : report.errors = wanting → report.exit = .ok 1 ∧ ∃ events m m' n x x',
    prepare files bytes o.settings room = (events, .ok m) ∧
      prepare files piped o'.settings room = (events, .ok m') ∧
      m.entered.after n = some x ∧ m'.entered.after n = some x' ∧ x.Parts x' ∧ x.sink.text = report.output ∧
        ∀ fuel', n ≤ fuel' → ∃ rest, (report' fuel').output = report.output ++ rest

section Continues
variable {o' : Options} {bytes piped : List UInt8} {fuel : ℕ} {events : List Event} {m : Machine}

/-- Nothing is read, and nothing has to be compared. -/
theorem Continues.of_same {report : Report} {report' : ℕ → Report} (hsame : ∀ fuel', report' fuel' = report)
    (hinput : report.errors ≠ wanting) : Continues files room o o' bytes piped fuel report report' :=
  ⟨fun _ _ fuel' _ => hsame fuel', fun h => absurd h hinput⟩

theorem Continues.of_run (hs : m.Safe) (hended : m.input.ending = .ended)
    (hm : prepare files bytes o.settings room = (events, .ok m))
    (hm' : prepare files piped o'.settings room = (events, .ok (m.endingIn (.repeats (.integer m.tape.default))))) :
    Continues files room o o' bytes piped fuel (silent (m.run fuel).1.sink.text (m.run fuel).2) fun fuel' =>
      silent ((m.endingIn (.repeats (.integer m.tape.default))).run fuel').1.sink.text
        ((m.endingIn (.repeats (.integer m.tape.default))).run fuel').2 := by
  constructor
  · intro hends hinput fuel' hfuel
    have hends : (m.run fuel).2 ≠ .error .unfinished := fun h => hends (silent_exit_unfinished_iff.mpr h)
    have hinput : (m.run fuel).2 ≠ .error (.fault .inputEnded) := fun h => hinput (silent_errors_iff.mpr h)
    rw [← Machine.run_of_le hends hfuel] at hinput ⊢
    rw [Machine.run_endingIn hended hinput]
    rfl
  · intro hinput
    have hinput := silent_errors_iff.mp hinput
    have hexit : (silent (m.run fuel).1.sink.text (m.run fuel).2).exit = .ok 1 := by
      rw [hinput, silent_of_endOfInput rfl rfl]
    have hv : m.program.validate = .ok () := by
      cases hv : m.program.validate with
      | ok u => rfl
      | error f =>
        rw [Machine.run_of_invalid hv] at hinput
        obtain rfl := Stop.fault.inj (Except.error.inj hinput)
        cases Program.validate_kind hv
    obtain ⟨n, x, x', hn, hn', hparts, htext, hgoes⟩ := Machine.exists_parts hended hs hv hinput
    refine ⟨hexit, events, m, _, n, x, x', hm, hm', hn, hn', hparts, ?_, ?_⟩
    · rw [silent_output, htext]
    · intro fuel' hfuel
      rw [silent_output, silent_output]
      exact hgoes fuel' hfuel

end Continues

theorem checked_ne_wanting (events : List Event) (program : Program) :
    (silent (checked events program).output (checked events program).ending).errors ≠ wanting := by
  intro hwanting
  have hending := silent_errors_iff.mp hwanting
  unfold checked at hending
  split at hending
  · next hv =>
    obtain rfl := Stop.fault.inj (Except.error.inj hending)
    cases Program.validate_kind hv
  · cases hending

section Report
variable {arguments : List String} {piped : List UInt8} {events : List Event} {m : Machine} {rank : ℕ}
  (hr : grammar.read {} arguments = .ok (.settings o.settings))
  (hlevel : rankOf o.level Level.warning.rank = .ok Level.warning.rank)
  (hevents : ∀ e ∈ events, e.level = Level.debug)
include hr hlevel hevents

theorem run_of_refused (hm : prepare files piped o.settings room = (events, .error f)) (fuel : ℕ) :
    Interpreter.run fuel files piped arguments room = silent "" (.error (.fault f)) := by
  have hcourse : course fuel files piped o.settings room = ⟨events, "", .error (.fault f)⟩ := by
    simp only [course, hm]
  rw [run_eq_report hr hlevel, hcourse]
  exact report_eq_silent hevents

theorem run_of_checked (hcheck : o.check = true) (hm : prepare files piped o.settings room = (events, .ok m))
    (fuel : ℕ) :
    Interpreter.run fuel files piped arguments room =
      silent (checked events m.program).output (checked events m.program).ending := by
  have hsettings : o.settings.check = true := hcheck
  have hcourse : course fuel files piped o.settings room = checked events m.program := by
    simp only [course, hm, hsettings, if_true]
  rw [run_eq_report hr hlevel, hcourse]
  refine report_eq_silent ?_
  unfold checked
  split <;> exact hevents

theorem run_of_prepared (hcheck : o.check = false) (hquiet : m.Quiet)
    (hm : prepare files piped o.settings room = (events, .ok m)) (fuel : ℕ) :
    Interpreter.run fuel files piped arguments room = silent (m.run fuel).1.sink.text (m.run fuel).2 := by
  have hsettings : o.settings.check = false := hcheck
  have hcourse : course fuel files piped o.settings room =
      ⟨events ++ (m.run fuel).1.journal.toList, (m.run fuel).1.sink.text, (m.run fuel).2⟩ := by
    simp only [course, hm, hsettings, Bool.false_eq_true, if_false]
  rw [run_eq_report hr hlevel, hcourse]
  refine report_eq_silent ?_
  intro e he
  obtain he | he := List.mem_append.mp he
  · exact hevents e he
  · exact hquiet.run fuel e (Array.mem_toList_iff.mp he)

end Report

/-- Bytes may as well be given to a program as piped into it, until they are used up. -/
theorem given_continues_piped {arguments arguments' : List String} {bytes : List UInt8} (hinput : o.input = none)
    (hlevel : o.level = "WARNING") (hr : grammar.read {} arguments = .ok (.settings o.settings))
    (hr' : grammar.read {} arguments' = .ok (.settings (o.given bytes).settings)) (files : Files) (room : Room)
    (piped : List UInt8) (fuel : ℕ) :
    Continues files room o (o.given bytes) bytes piped fuel (Interpreter.run fuel files bytes arguments room)
      fun fuel' => Interpreter.run fuel' files piped arguments' room := by
  have hrank : rankOf o.level Level.warning.rank = .ok Level.warning.rank := by rw [hlevel]; rfl
  have hrank' : rankOf (o.given bytes).level Level.warning.rank = .ok Level.warning.rank := hrank
  obtain ⟨f, events, hkind, hevents, hm, hm'⟩ | ⟨m, events, hsafe, hquiet, hended, hevents, hm, hm'⟩ :=
    prepare_given hinput files room bytes piped
  · have hreport' := run_of_refused hr' hrank' hevents hm'
    rw [run_of_refused hr hrank hevents hm]
    refine .of_same hreport' ?_
    intro hwanting
    obtain rfl := Stop.fault.inj (Except.error.inj (silent_errors_iff.mp hwanting))
    exact hkind rfl
  · cases hcheck : o.check with
    | true =>
      have hreport' := run_of_checked hr' hrank' hevents hcheck hm'
      rw [run_of_checked hr hrank hevents hcheck hm]
      exact .of_same hreport' (checked_ne_wanting events m.program)
    | false =>
      have hquiet' : (m.endingIn (.repeats (.integer m.tape.default))).Quiet := hquiet
      rw [run_of_prepared hr hrank hevents hcheck hquiet hm]
      simp only [run_of_prepared hr' hrank' hevents hcheck hquiet' hm']
      exact .of_run hsafe hended hm hm'

/-- A byte is passed on, and there is no other one. -/
def passingOn : Options where
  code := some ",.,"
  size := 1

/-- The second read finds nothing where the byte is piped in, and a nought where it is given. -/
theorem given_continues_piped_byte :
    passingOn.input = none ∧ passingOn.level = "WARNING" ∧
      grammar.read {} ["-e", ",.,", "--memory-size", "1"] = .ok (.settings passingOn.settings) ∧
      grammar.read {} ["-e", ",.,", "--memory-size", "1", "--input", "A"] =
        .ok (.settings (passingOn.given [65]).settings) ∧
      (Interpreter.run 9 .none [65] ["-e", ",.,", "--memory-size", "1"] (.upTo 1)).errors = wanting ∧
      (Interpreter.run 9 .none [65] ["-e", ",.,", "--memory-size", "1"] (.upTo 1)).output = "A" ∧
      ∃ n, ∀ fuel, n ≤ fuel → ∃ rest,
        (Interpreter.run fuel .none [] ["-e", ",.,", "--memory-size", "1", "--input", "A"] (.upTo 1)).output =
          "A" ++ rest := by
  have hr : grammar.read {} ["-e", ",.,", "--memory-size", "1"] = .ok (.settings passingOn.settings) := by
    delta Grammar.read Grammar.readFrom
    rfl
  have hr' : grammar.read {} ["-e", ",.,", "--memory-size", "1", "--input", "A"] =
      .ok (.settings (passingOn.given [65]).settings) := by
    delta Grammar.read Grammar.readFrom
    rfl
  have hm : prepare .none [65] passingOn.settings (.upTo 1) = ([], .ok (passingOn.machine ",.," [65])) := rfl
  have hquiet : (passingOn.machine ",.," [65]).Quiet := by simp [Machine.Quiet, machine]
  have hreport := run_of_prepared hr rfl (by simp) rfl hquiet hm 9
  have hresult : ((passingOn.machine ",.," [65]).run 9).2 = .error (.fault .inputEnded) := rfl
  have hwritten : ((passingOn.machine ",.," [65]).run 9).1.sink.written = #[65] := rfl
  have htext : ((passingOn.machine ",.," [65]).run 9).1.sink.text = "A" := by
    rw [Sink.text, hwritten]
    decide
  rw [hresult, htext] at hreport
  have hwanting : (Interpreter.run 9 .none [65] ["-e", ",.,", "--memory-size", "1"] (.upTo 1)).errors = wanting := by
    rw [hreport]
    exact silent_errors_iff.mpr rfl
  have houtput : (Interpreter.run 9 .none [65] ["-e", ",.,", "--memory-size", "1"] (.upTo 1)).output = "A" := by
    rw [hreport, silent_output]
  obtain ⟨-, -, -, -, n, -, -, -, -, -, -, -, -, hgoes⟩ :=
    (given_continues_piped rfl rfl hr hr' .none (.upTo 1) [] 9).parts hwanting
  rw [houtput] at hgoes
  exact ⟨rfl, rfl, hr, hr', hwanting, houtput, n, hgoes⟩

end Options

end CommandLine.Interpreter

end Brainfuck
