import Brainfuck.Proofs.Conversation

/-! Obedience. What a conversation makes of a session is what its lines ask for, one after the other: each line that names
a call and has all that it needs is that call, and any other line leaves the session alone. -/
namespace Brainfuck.Debugger

namespace Session
variable {s : Session} {fuel : Nat} {line : String}

/-- The words on a line, the first one in small letters. There are none on a blank line, nor on one whose quotation is
left open. -/
def wordsOn (line : String) : Option (String × List String) :=
  match Text.Words.split (String.ofList (Text.strip line.toList)) with
  | .ok (word :: arguments) => some (Text.lower word, arguments)
  | _ => none

/-- What a number makes of a session; what is no number leaves it alone. -/
def byNumber (s : Session) (word : String) (f : Int → Session) : Session :=
  match Text.integer? word with
  | some n => f n
  | none => s

/-- The session behind the call that a word and its arguments ask for, also behind one that fails. -/
def follow (fuel : Nat) (s : Session) (word : String) (arguments : List String) : Session :=
  match word, arguments with
  | "n", [] | "next", [] => (s.stepForward 1).1
  | "n", a :: _ | "next", a :: _ => s.byNumber a fun n => (s.stepForward (max 1 n)).1
  | "r", [] | "run", [] => noted (s.runUntilBreak fuel none)
  | "r", a :: _ | "run", a :: _ => s.byNumber a fun n => noted (s.runUntilBreak fuel (some n))
  | "break", a :: _ => s.byNumber a s.addBreakpoint
  | "clear", [] => s.clearBreakpoints
  | "clear", a :: _ => s.byNumber a fun n => (s.removeBreakpoint n).1
  | "restart", _ => s.restart
  | _, _ => s

def heed (fuel : Nat) (s : Session) (line : String) : Session :=
  match wordsOn line with
  | some (word, arguments) => s.follow fuel word arguments
  | none => s

def ends (line : String) : Bool :=
  match wordsOn line with
  | some (word, _) => word = "quit" ∨ word = "exit"
  | none => false

theorem byNumber_self (word : String) : (s.byNumber word fun _ => s) = s := by
  unfold byNumber
  split <;> rfl

theorem obey_withNumber (word : String) (f : Int → Command) :
    s.obey fuel (Command.withNumber word f) = s.byNumber word fun n => s.obey fuel (f n) := by
  unfold Command.withNumber byNumber
  cases Text.integer? word with
  | none => rfl
  | some n => rfl

theorem obey_ofWords (word : String) (arguments : List String) :
    s.obey fuel (Command.ofWords word arguments) = s.follow fuel (Text.lower word) arguments := by
  unfold Command.ofWords
  generalize Text.lower word = w
  split
  case h_11 a _ => exact (obey_withNumber a .history).trans (byNumber_self a)
  case h_21 =>
    rw [follow]
    · rfl
    all_goals assumption
  all_goals first | rfl | exact obey_withNumber _ _

/-- The words that name a call or show something. -/
def vocabulary : List String :=
  ["n", "next", "r", "run", "state", "history", "break", "breaks", "clear", "restart", "quit", "exit", "help"]

/-- Lines that ask for nothing: those without words, those that only show something, those that start with no word of
the vocabulary, and those on which a number is missing or is none. -/
inductive Idle (line : String) : Prop where
  | wordless (h : wordsOn line = none) : Idle line
  | showing {word : String} {arguments : List String} (h : wordsOn line = some (word, arguments))
      (hw : word ∈ ["state", "history", "breaks", "help"]) : Idle line
  | unknown {word : String} {arguments : List String} (h : wordsOn line = some (word, arguments))
      (hw : word ∉ vocabulary) : Idle line
  | missing (h : wordsOn line = some ("break", [])) : Idle line
  | unnumbered {word a : String} {arguments : List String} (h : wordsOn line = some (word, a :: arguments))
      (hw : word ∈ ["n", "next", "r", "run", "history", "break", "clear"]) (ha : Text.integer? a = none) : Idle line

theorem byNumber_none {word : String} (h : Text.integer? word = none) (f : Int → Session) : s.byNumber word f = s := by
  rw [byNumber, h]

theorem heed_idle (h : Idle line) : s.heed fuel line = s := by
  unfold heed
  cases h with
  | wordless h => rw [h]
  | showing h hw =>
    rw [h]
    simp only [List.mem_cons, List.not_mem_nil, or_false] at hw
    obtain rfl | rfl | rfl | rfl := hw <;> rfl
  | unknown h hw =>
    rw [h]
    dsimp only
    unfold follow
    split
    case h_13 => rfl
    all_goals exact absurd (by decide) hw
  | missing h => rw [h]; rfl
  | unnumbered h hw ha =>
    rw [h]
    simp only [List.mem_cons, List.not_mem_nil, or_false] at hw
    obtain rfl | rfl | rfl | rfl | rfl | rfl | rfl := hw
    all_goals first | rfl | exact byNumber_none ha _

theorem heed_of_ends (h : ends line = true) : s.heed fuel line = s := by
  unfold ends at h
  unfold heed
  cases hwords : wordsOn line with
  | none => rfl
  | some words =>
    obtain ⟨word, arguments⟩ := words
    rw [hwords] at h
    obtain rfl | rfl := of_decide_eq_true h
    · rfl
    · rfl

/-- How a line is understood: it is left open, it is blank, or its words are those of a command. -/
theorem wordsOn_cases (line : String) :
    (∃ d, Command.ofLine line = .error d ∧ wordsOn line = none) ∨
      (Command.ofLine line = .ok none ∧ wordsOn line = none) ∨
        ∃ word arguments, Command.ofLine line = .ok (some (Command.ofWords word arguments)) ∧
          wordsOn line = some (Text.lower word, arguments) := by
  cases hline : Command.ofLine line with
  | ok command =>
    cases command with
    | some command =>
      obtain ⟨word, arguments, hsplit, rfl⟩ := Command.worded_of_ofLine hline
      exact Or.inr (Or.inr ⟨word, arguments, rfl, by rw [wordsOn, hsplit]⟩)
    | none =>
      refine Or.inr (Or.inl ⟨rfl, ?_⟩)
      simp only [Command.ofLine, bind, Except.bind, pure, Except.pure] at hline
      split at hline
      · next hblank =>
        have hnil : Text.strip line.toList = [] := by simpa using hblank
        rw [wordsOn, hnil]
        rfl
      · split at hline
        · cases hline
        · split at hline
          · cases hline
          · cases hline
  | error d =>
    refine Or.inl ⟨d, rfl, ?_⟩
    simp only [Command.ofLine, bind, Except.bind, pure, Except.pure] at hline
    split at hline
    · cases hline
    · split at hline
      · next hsplit => rw [wordsOn, hsplit]
      · split at hline
        · cases hline
        · cases hline

end Session

namespace Console
open Session (heed ends wordsOn wordsOn_cases)

variable {c : Console} {fuel : Nat} {line : String}

theorem report_session (c : Console) (e : Stop) : (c.report e).1.session = c.session := by
  unfold report
  split
  · split
    · rfl
    · split <;> rfl
  · rfl

/-- Whatever comes of a command, the session is behind what it asks for. -/
theorem execute_session (fuel : Nat) (c : Console) (command : Command) :
    (c.execute fuel command).1.session = c.session.obey fuel command := by
  cases command with
  | next count =>
    rcases hstep : c.session.stepForward count with ⟨s, e | xs⟩
    · have hobey : c.session.obey fuel (.next count) = s := congrArg Prod.fst hstep
      simp only [execute, hstep, report_session, withSession_session, hobey]
    · have hobey : c.session.obey fuel (.next count) = s := congrArg Prod.fst hstep
      simp only [execute, hstep, showSteps_session, withSession_session, hobey]
  | run limit =>
    rcases hrun : c.session.runUntilBreak fuel limit with ⟨s, e | xs⟩
    · have hobey : c.session.obey fuel (.run limit) = s := congrArg Session.noted hrun
      simp only [execute, hrun, report_session, withSession_session, hobey]
    · have hobey : c.session.obey fuel (.run limit) = Session.noted (s, .ok xs) := congrArg Session.noted hrun
      simp only [execute, hrun, showRun_session, withSession_session, hobey]
  | history count => exact c.printStates_session _
  | breakpoints =>
    simp only [execute]
    split <;> rfl
  | clear p =>
    rcases hremove : c.session.removeBreakpoint p with ⟨s, removed⟩
    have hobey : c.session.obey fuel (.clear p) = s := congrArg Prod.fst hremove
    simp only [execute, hremove]
    cases removed with
    | true => exact hobey.symm
    | false => exact hobey.symm
  | _ => rfl

/-- Whatever comes of a line, the session is behind what it asks for. -/
theorem executeLine_session (fuel : Nat) (c : Console) (line : String) :
    (c.executeLine fuel line).1.session = c.session.heed fuel line := by
  unfold executeLine heed
  obtain ⟨d, hline, hwords⟩ | ⟨hline, hwords⟩ | ⟨word, arguments, hline, hwords⟩ := wordsOn_cases line
  · rw [hline, hwords]
  · rw [hline, hwords]
  · rw [hline, hwords]
    exact (c.execute_session fuel _).trans (Session.obey_ofWords word arguments)

theorem report_ne_leave (c : Console) (e : Stop) : (c.report e).2 ≠ .leave := by
  unfold report
  split
  · split
    · exact Verdict.noConfusion
    · split
      · exact Verdict.noConfusion
      · exact Verdict.noConfusion
  · exact Verdict.noConfusion

/-- Only a command to end the conversation does so. -/
theorem execute_leave_iff {command : Command} : (c.execute fuel command).2 = .leave ↔ command = .quit := by
  cases command with
  | next count =>
    refine iff_of_false ?_ Command.noConfusion
    rcases hstep : c.session.stepForward count with ⟨s, e | xs⟩
    · simp only [execute, hstep]
      exact report_ne_leave _ e
    · simp [execute, hstep]
  | run limit =>
    refine iff_of_false ?_ Command.noConfusion
    rcases hrun : c.session.runUntilBreak fuel limit with ⟨s, e | xs⟩
    · simp only [execute, hrun]
      exact report_ne_leave _ e
    · simp [execute, hrun]
  | breakpoints =>
    refine iff_of_false ?_ Command.noConfusion
    simp only [execute]
    split
    · exact Verdict.noConfusion
    · exact Verdict.noConfusion
  | clear p =>
    refine iff_of_false ?_ Command.noConfusion
    rcases hremove : c.session.removeBreakpoint p with ⟨s, removed⟩
    cases removed with
    | true => simp [execute, hremove]
    | false => simp [execute, hremove]
  | quit => exact iff_of_true rfl rfl
  | _ => simp [execute]

theorem withNumber_ne_quit (word : String) {f : Int → Command} (hf : ∀ n, f n ≠ .quit) :
    Command.withNumber word f ≠ .quit := by
  unfold Command.withNumber
  split
  · exact hf _
  · nofun

theorem ofWords_eq_quit_iff (word : String) (arguments : List String) :
    Command.ofWords word arguments = .quit ↔ Text.lower word = "quit" ∨ Text.lower word = "exit" := by
  unfold Command.ofWords
  generalize Text.lower word = w
  split
  case h_21 =>
    refine iff_of_false nofun ?_
    rintro (h | h)
    · contradiction
    · contradiction
  all_goals simp [withNumber_ne_quit]

/-- A line ends the conversation exactly if it starts with one of two words. -/
theorem executeLine_leave_iff : (c.executeLine fuel line).2 = .leave ↔ ends line = true := by
  unfold executeLine ends
  obtain ⟨d, hline, hwords⟩ | ⟨hline, hwords⟩ | ⟨word, arguments, hline, hwords⟩ := wordsOn_cases line
  · rw [hline, hwords]
    exact iff_of_false nofun nofun
  · rw [hline, hwords]
    exact iff_of_false nofun nofun
  · rw [hline, hwords]
    simp only [execute_leave_iff, ofWords_eq_quit_iff, decide_eq_true_eq]

/-- The session behind a conversation that comes to its end. The induction is on the lines: each is heeded, unless it
ends the conversation. -/
theorem converse_session {defect : Option Text.Utf8.Defect} {lines : List String}
    (h : (converse fuel c defect lines).2 = .ok ()) :
    (converse fuel c defect lines).1.session = (lines.takeWhile fun l => !ends l).foldl (heed fuel) c.session := by
  induction lines generalizing c with
  | nil =>
    cases defect with
    | none => rfl
    | some d => cases h
  | cons line lines ih =>
    have hsession := executeLine_session fuel c.prompt line
    have hleave : (c.prompt.executeLine fuel line).2 = .leave ↔ ends line = true := executeLine_leave_iff
    unfold converse at h ⊢
    generalize c.prompt.executeLine fuel line = r at h hsession hleave
    obtain ⟨c', proceed | leave | e⟩ := r
    · have hends : ends line = false := by
        cases hends : ends line with
        | false => rfl
        | true => cases hleave.mpr hends
      rw [List.takeWhile_cons_of_pos (by simp [hends]), List.foldl_cons, ← prompt_session c, ← hsession]
      exact ih h
    · have hends : ends line = true := hleave.mp rfl
      rw [List.takeWhile_cons_of_neg (by simp [hends])]
      exact hsession.trans (Session.heed_of_ends hends)
    · cases h

/-- Nothing behind a line that ends the conversation has been heard. -/
theorem converse_ends (hends : ends line = true) (before behind : List String) (defect defect' : Option Text.Utf8.Defect) :
    converse fuel c defect (before ++ line :: behind) = converse fuel c defect' (before ++ [line]) := by
  induction before generalizing c with
  | nil =>
    have hleave : (c.prompt.executeLine fuel line).2 = .leave ↔ ends line = true := executeLine_leave_iff
    rw [List.nil_append, List.nil_append, converse, converse]
    generalize c.prompt.executeLine fuel line = r at hleave
    obtain ⟨c', verdict⟩ := r
    obtain rfl : verdict = .leave := hleave.mpr hends
    rfl
  | cons l before ih =>
    rw [List.cons_append, List.cons_append, converse, converse]
    rcases c.prompt.executeLine fuel l with ⟨c', _ | _ | e⟩
    · exact ih
    · rfl
    · rfl

end Console

end Brainfuck.Debugger
