import Mathlib.Data.List.Nodup
import Brainfuck.CommandLine.Interpreter

/-! Reports of the command line. A complaint can be read back, and a report without a log says how a run ended. -/
namespace Brainfuck

namespace Fault.Kind

def all : List Kind :=
  [invalidConfiguration, sourceUnavailable, indexOutOfBounds, valueOutOfRange, invalidProgram,
    invalidInstruction, stepLimitExceeded, endOfInput, invalidValue, invalidType, undecodable, exhausted,
    unknownKey, withheld, overflow, outOfMemory, tooDeep, notAFile, unencodable, unserializable]

theorem mem_all (k : Kind) : k ∈ all := by
  cases k <;> decide

theorem name_injective {k k' : Kind} (h : k.name = k'.name) : k = k' := by
  have hnames : (all.map name).Nodup := by decide
  exact List.inj_on_of_nodup_map hnames k.mem_all k'.mem_all h

theorem colon_not_mem_name (k : Kind) : ':' ∉ k.name.toList := by
  cases k <;> decide

theorem takeWhile_name (k : Kind) (rest : List Char) :
    (k.name.toList ++ ':' :: rest).takeWhile (· != ':') = k.name.toList := by
  rw [List.takeWhile_append_of_pos]
  · simp
  · intro c hc
    have hne : c ≠ ':' := fun h => k.colon_not_mem_name (h ▸ hc)
    simpa using hne

end Fault.Kind

namespace CommandLine
variable {b b' message message' : String} {k k' : Fault.Kind} {f : Fault}

/-- What a command line leaves behind that complains of a failure. -/
def Report.failure (output : String) (k : Fault.Kind) (message : String) : Report :=
  ⟨output, s!"{k.name}: {message}\n", .ok 1⟩

/-- The complaint tells the kind of the failure from its message, as no kind has a colon in its name. -/
theorem Report.failure_inj (h : failure b k message = failure b' k' message') :
    b = b' ∧ k = k' ∧ message = message' := by
  obtain ⟨rfl, hreport, -⟩ := Report.mk.inj h
  have hline : k.name ++ ": " ++ message ++ "\n" = k'.name ++ ": " ++ message' ++ "\n" := hreport
  have hlist : k.name.toList ++ ':' :: ' ' :: (message.toList ++ ['\n']) =
      k'.name.toList ++ ':' :: ' ' :: (message'.toList ++ ['\n']) := by
    simpa using congrArg String.toList hline
  have hname := congrArg (List.takeWhile (· != ':')) hlist
  rw [Fault.Kind.takeWhile_name, Fault.Kind.takeWhile_name] at hname
  obtain rfl := Fault.Kind.name_injective (String.toList_injective hname)
  have hmessage : message.toList ++ ['\n'] = message'.toList ++ ['\n'] := by
    simpa using List.append_cancel_left hlist
  exact ⟨rfl, rfl, String.toList_injective (List.append_cancel_right hmessage)⟩

theorem logText_of_rank {rank : Nat} {events : List Event} (hrank : Level.debug.rank < rank)
    (h : ∀ e ∈ events, e.level = .debug) : logText rank events = "" := by
  have hnone : events.filter (fun e => rank ≤ e.level.rank) = [] := by
    rw [List.filter_eq_nil_iff]
    intro e he
    rw [h e he]
    simpa using hrank
  rw [logText, hnone]
  rfl

theorem logText_of_debug {events : List Event} (h : ∀ e ∈ events, e.level = .debug) :
    logText Level.warning.rank events = "" :=
  logText_of_rank (by decide) h

namespace Interpreter

/-- The report on what was written and how it ended, with nothing in the log. -/
def silent (output : String) (ending : Except Stop Unit) : Report :=
  (⟨[], output, ending⟩ : Course).report Level.warning.rank

theorem report_eq_silent {c : Course} (h : ∀ e ∈ c.events, e.level = .debug) :
    c.report Level.warning.rank = silent c.output c.ending := by
  unfold silent Course.report
  rw [logText_of_debug h, logText_of_debug (by simp)]

theorem silent_ok : silent b (.ok ()) = ⟨b, "", .ok 0⟩ := rfl

theorem silent_unfinished : silent b (.error .unfinished) = ⟨b, "", .error .unfinished⟩ := rfl

theorem silent_of_isMachine (h : f.isMachine = true) :
    silent b (.error (.fault f)) = .failure b f.kind f.message := by
  unfold silent Course.report
  simp [h, Report.failure, logText_of_debug]

theorem silent_of_not_isMachine (h : f.isMachine = false) (he : f.kind ≠ .endOfInput) :
    silent b (.error (.fault f)) = ⟨b, "", .error (.fault f)⟩ := by
  unfold silent Course.report
  simp [h, he, logText_of_debug]

theorem silent_of_endOfInput (h : f.isMachine = false) (he : f.kind = .endOfInput) :
    silent b (.error (.fault f)) = ⟨b, s!"Input error: {f.message}\n", .ok 1⟩ := by
  unfold silent Course.report
  simp [h, he, logText_of_debug]

/-- A report tells apart a run that has come to its end, one that has not, and one that has failed. -/
theorem silent_eq (b : String) (r : Except Stop Unit) :
    ∃ complaint exit, silent b r = ⟨b, complaint, exit⟩ ∧ (exit = .ok 0 ↔ r = .ok ()) ∧
      (exit = .error .unfinished ↔ r = .error .unfinished) := by
  cases r with
  | ok u => exact ⟨_, _, silent_ok, by simp, by simp⟩
  | error e =>
    cases e with
    | unfinished => exact ⟨_, _, silent_unfinished, by simp, by simp⟩
    | fault f =>
      cases hm : f.isMachine with
      | true => exact ⟨_, _, silent_of_isMachine hm, by simp, by simp⟩
      | false =>
        by_cases he : f.kind = .endOfInput
        · exact ⟨_, _, silent_of_endOfInput hm he, by simp, by simp⟩
        · exact ⟨_, _, silent_of_not_isMachine hm he, by simp, by simp⟩

theorem silent_output (b : String) (r : Except Stop Unit) : (silent b r).output = b := by
  obtain ⟨complaint, exit, h, -⟩ := silent_eq b r
  rw [h]

theorem silent_exit_ok_iff {r : Except Stop Unit} : (silent b r).exit = .ok 0 ↔ r = .ok () := by
  obtain ⟨complaint, exit, h, hok, -⟩ := silent_eq b r
  rw [h, hok]

theorem silent_exit_unfinished_iff {r : Except Stop Unit} :
    (silent b r).exit = .error .unfinished ↔ r = .error .unfinished := by
  obtain ⟨complaint, exit, h, -, hunfinished⟩ := silent_eq b r
  rw [h, hunfinished]

/-- Where only the machine's own failures occur, a report that complains of one says how it ended. -/
theorem silent_eq_failure_iff {r : Except Stop Unit} (h : ∀ f, r = .error (.fault f) → f.isMachine = true) :
    silent b r = .failure b' k message ↔
      ∃ f, r = .error (.fault f) ∧ f.kind = k ∧ f.message = message ∧ b = b' := by
  cases r with
  | ok u =>
    have hok : silent b (.ok u) = ⟨b, "", .ok 0⟩ := silent_ok
    simp [hok, Report.failure]
  | error e =>
    cases e with
    | unfinished => simp [silent_unfinished, Report.failure]
    | fault f =>
      rw [silent_of_isMachine (h f rfl)]
      constructor
      · intro hreport
        obtain ⟨rfl, rfl, rfl⟩ := Report.failure_inj hreport
        exact ⟨f, rfl, rfl, rfl, rfl⟩
      · rintro ⟨g, hg, rfl, rfl, rfl⟩
        obtain rfl := Stop.fault.inj (Except.error.inj hg)
        rfl

end Interpreter

end CommandLine

end Brainfuck
