import Mathlib.Data.List.TakeWhile
import Brainfuck.Proofs.Console

/-! Conversations. A console that has a session with a step limit goes on behind every line, whatever is typed,
until it is told to stop, except that a line whose quotation is left open ends it at once. -/
namespace Brainfuck

namespace Text

/-- What is left of a text has a character that is not dropped. -/
theorem exists_mem_trimBy {drop : Char → Bool} {cs : List Char} (h : trimBy drop cs ≠ []) :
    ∃ c ∈ trimBy drop cs, drop c = false := by
  have hpos : 0 < ((cs.dropWhile drop).reverse.dropWhile drop).length := by
    refine List.length_pos_iff.mpr fun hnil => h ?_
    rw [trimBy, hnil, List.reverse_nil]
  have hkept := List.dropWhile_get_zero_not drop _ hpos
  refine ⟨_, ?_, by simpa using hkept⟩
  rw [trimBy, List.mem_reverse]
  exact List.get_mem _ _

/-- Only blank characters part words. -/
theorem isBlank_of_parts {c : Char} (h : Words.parts c = true) : isBlank c = true := by
  simp only [Words.parts, Bool.or_eq_true, beq_iff_eq] at h
  obtain ((rfl | rfl) | rfl) | rfl := h <;> rfl

theorem Words.map_cons_ne_nil {word : List Char} (r : Except Defect (List (List Char))) :
    r.map (word :: ·) ≠ .ok [] := by
  cases r <;> simp [Except.map]

/-- A text without words is blank. -/
theorem Words.blank_of_splitFrom {place : Place} {cs : List Char} (h : splitFrom place cs = .ok []) :
    place = .between ∧ ∀ c ∈ cs, parts c = true := by
  fun_induction splitFrom place cs
  all_goals simp_all [map_cons_ne_nil]

end Text

namespace Debugger

namespace Command
variable {line : String}

/-- Whether a line has no words since a quotation or an escape in it is left open. -/
def misquoted (line : String) : Bool :=
  match ofLine line with
  | .error _ => true
  | .ok _ => false

def quits (line : String) : Bool :=
  match ofLine line with
  | .ok (some .quit) => true
  | _ => false

theorem misquoted_iff : misquoted line = true ↔ ∃ d, ofLine line = .error d := by
  unfold misquoted
  split
  · next d hd => exact iff_of_true rfl ⟨d, hd⟩
  · next hok =>
    rw [hok]
    simp

theorem quits_iff : quits line = true ↔ ofLine line = .ok (some .quit) := by
  unfold quits
  split
  · next h => exact iff_of_true rfl h
  · next h => exact iff_of_false (by simp) h

/-- The words on a line are there, and a command is what they give. -/
def Worded (line : String) (command : Command) : Prop :=
  ∃ word arguments, Text.Words.split (String.ofList (Text.strip line.toList)) = .ok (word :: arguments) ∧
    command = ofWords word arguments

/-- A line that is neither blank nor misquoted has a first word. -/
theorem worded_of_ofLine {command : Command} (h : ofLine line = .ok (some command)) : Worded line command := by
  simp only [ofLine, bind, Except.bind, pure, Except.pure] at h
  split at h
  · cases h
  · next hblank =>
    split at h
    · cases h
    · next words hwords =>
      cases words with
      | cons word arguments => exact ⟨word, arguments, hwords, (Option.some.inj (Except.ok.inj h)).symm⟩
      | nil =>
        -- a line without words would be blank
        have hnil : Text.Words.splitFrom .between (Text.strip line.toList) = .ok [] := by
          simp only [Text.Words.split, String.toList_ofList] at hwords
          cases hsplit : Text.Words.splitFrom .between (Text.strip line.toList) with
          | error d => rw [hsplit] at hwords; cases hwords
          | ok ws =>
            rw [hsplit] at hwords
            have hmap : ws.map String.ofList = [] := Except.ok.inj hwords
            rw [List.map_eq_nil_iff.mp hmap]
        obtain ⟨-, hparts⟩ := Text.Words.blank_of_splitFrom hnil
        have hne : Text.strip line.toList ≠ [] := by simpa using hblank
        obtain ⟨c, hc, hkept⟩ := Text.exists_mem_trimBy hne
        have hdropped := Text.isBlank_of_parts (hparts c hc)
        rw [hdropped] at hkept
        cases hkept

end Command

namespace Console
variable {c : Console} {fuel : Nat} {line : String}

/-- What comes of a line. A line that is left open aborts the conversation, a blank one does nothing, and a command is
reported unless it ends the conversation. -/
inductive Hears (fuel : Nat) (c : Console) (line : String) : Console × Verdict → Prop where
  | misquoted {d : Text.Words.Defect} (h : Command.ofLine line = .error d) :
      Hears fuel c line (c, .abort (.fault (.unwordable d)))
  | blank (h : Command.ofLine line = .ok none) : Hears fuel c line (c, .proceed)
  | quits (h : Command.ofLine line = .ok (some .quit)) : Hears fuel c line (c, .leave)
  | reports {command : Command} {c' : Console} (h : Command.ofLine line = .ok (some command))
      (hw : Command.Worded line command) (hne : command ≠ .quit) (hr : c.Reports fuel command c') :
      Hears fuel c line (c', .proceed)

theorem Hears.writes {r : Console × Verdict} (h : c.Hears fuel line r) : c.Writes r.1 := by
  cases h with
  | misquoted _ => exact .refl c
  | blank _ => exact .refl c
  | quits _ => exact .refl c
  | reports _ _ _ hr => exact hr.writes

/-- The console behind several lines, each of which it has asked for. -/
abbrev after (fuel : Nat) (c : Console) (lines : List String) : Console :=
  Calls.after (fun c line => c.prompt.executeLine fuel line) c lines

section InUse
variable {setup : Setup} {limit : Int} (hi : ∀ v ∈ setup.input, ∃ n, v = .integer n)
  (hl : setup.maxSteps = .ok (some limit)) (hfuel : limit.toNat + 1 < fuel)
include hi hl hfuel

theorem executeLine_hears (hc : Session.InUse setup c.session) (line : String) :
    c.Hears fuel line (c.executeLine fuel line) := by
  unfold executeLine
  split
  · next h => exact .misquoted h
  · next h => exact .blank h
  · next command h =>
    by_cases hquit : command = .quit
    · subst hquit
      exact .quits h
    · obtain ⟨c', hc', hreports⟩ := execute_reports hquit (hc.asked_reported hi hl hfuel command)
      rw [hc']
      exact .reports h (Command.worded_of_ofLine h) hquit hreports

/-- Whatever is typed, the session stays in use. -/
theorem inUse_executeLine (hc : Session.InUse setup c.session) (line : String) :
    Session.InUse setup (c.executeLine fuel line).1.session := by
  have hhears := executeLine_hears hi hl hfuel hc line
  generalize c.executeLine fuel line = r at hhears
  cases hhears with
  | misquoted _ => exact hc
  | blank _ => exact hc
  | quits _ => exact hc
  | reports _ _ _ hr =>
    rw [hr.session]
    exact hc.obey fuel _

/-- What has been written stays. -/
theorem inUse_after (hc : Session.InUse setup c.session) (lines : List String) :
    Session.InUse setup (c.after fuel lines).session ∧ c.Writes (c.after fuel lines) := by
  have hcall : ∀ (d : Console) (line : String), Session.InUse setup d.session ∧ c.Writes d →
      Session.InUse setup (d.prompt.executeLine fuel line).1.session ∧
        c.Writes (d.prompt.executeLine fuel line).1 := by
    rintro d line ⟨hd, hwrites⟩
    have hhears := executeLine_hears hi hl hfuel (c := d.prompt) hd line
    exact ⟨inUse_executeLine hi hl hfuel (c := d.prompt) hd line,
      (hwrites.trans d.prompt_writes).trans hhears.writes⟩
  exact Calls.after_induction hcall ⟨hc, .refl c⟩ lines

/-- A line that neither aborts nor ends the conversation is behind it. -/
theorem converse_cons (hc : Session.InUse setup c.session) (hline : Command.misquoted line = false)
    (hquits : Command.quits line = false) (defect : Option Text.Utf8.Defect) (lines : List String) :
    converse fuel c defect (line :: lines) = converse fuel (c.after fuel [line]) defect lines := by
  have hhears := executeLine_hears hi hl hfuel (c := c.prompt) hc line
  rw [converse]
  simp only [Console.after, Calls.after]
  generalize c.prompt.executeLine fuel line = r at hhears
  cases hhears with
  | misquoted h =>
    have hopen := Command.misquoted_iff.mpr ⟨_, h⟩
    rw [hline] at hopen
    cases hopen
  | blank _ => rfl
  | quits h =>
    have hquit := Command.quits_iff.mpr h
    rw [hquits] at hquit
    cases hquit
  | reports _ _ _ _ => rfl

theorem converse_append {before : List String} (hc : Session.InUse setup c.session)
    (hbefore : ∀ l ∈ before, Command.misquoted l = false ∧ Command.quits l = false)
    (defect : Option Text.Utf8.Defect) (lines : List String) :
    converse fuel c defect (before ++ lines) = converse fuel (c.after fuel before) defect lines := by
  induction before generalizing c with
  | nil => rfl
  | cons l before ih =>
    obtain ⟨hline, hquits⟩ := hbefore l List.mem_cons_self
    have hc' : Session.InUse setup (c.after fuel [l]).session := (inUse_after hi hl hfuel hc [l]).1
    rw [List.cons_append, converse_cons hi hl hfuel hc hline hquits]
    exact ih hc' fun l' hl' => hbefore l' (List.mem_cons_of_mem l hl')

/-- A conversation comes to its end if no line is left open in front of the one that ends it. -/
theorem converse_ok_iff (hc : Session.InUse setup c.session) (lines : List String) :
    (converse fuel c none lines).2 = .ok () ↔
      ∀ line ∈ lines.takeWhile (fun l => !Command.quits l), Command.misquoted line = false := by
  induction lines generalizing c with
  | nil => simp [converse]
  | cons line lines ih =>
    cases hquits : Command.quits line with
    | true =>
      have hline := Command.quits_iff.mp hquits
      simp [converse, executeLine, execute, hline, hquits]
    | false =>
      cases hopen : Command.misquoted line with
      | true =>
        obtain ⟨d, hd⟩ := Command.misquoted_iff.mp hopen
        simp [converse, executeLine, hd, hquits, hopen]
      | false =>
        have hc' : Session.InUse setup (c.after fuel [line]).session := (inUse_after hi hl hfuel hc [line]).1
        rw [converse_cons hi hl hfuel hc hopen hquits, ih hc']
        simp [hquits, hopen]

end InUse

def brief : Setup where
  code := "+"
  size := .ok 1
  maxSteps := .ok (some 5)

end Console

end Debugger

end Brainfuck
