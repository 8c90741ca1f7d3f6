import Brainfuck.Debugger.Console
import Brainfuck.Proofs.Response
import Brainfuck.Proofs.Stopping

/-! The debugger's console. What a command does to the session is a call, a restart or nothing, and what it writes
comes behind what has been written. A session with a step limit fails in no way that the console does not report. -/
namespace Brainfuck.Debugger

namespace Session
variable {setup : Setup} {s t : Session}

def asked (fuel : Nat) (s : Session) : Command → Session × Except Stop (List Snapshot)
  | .next count => s.call (.step count)
  | .run limit => s.call (.run fuel limit)
  | .setBreakpoint p => s.call (.add p)
  | .clearAll => s.call .clear
  | .clear p => s.call (.remove p)
  | .restart => (s.restart, .ok [])
  | _ => (s, .ok [])

/-- A hit that a run has shown is dealt with. -/
def noted (r : Session × Except Stop (List Snapshot)) : Session :=
  match r.2 with
  | .ok (_ :: _) => { r.1 with hit := none }
  | _ => r.1

def obey (fuel : Nat) (s : Session) : Command → Session
  | .run limit => noted (s.asked fuel (.run limit))
  | command => (s.asked fuel command).1

section InUse
variable (h : InUse setup s)
include h

theorem InUse.asked (fuel : Nat) (command : Command) : InUse setup (s.asked fuel command).1 := by
  cases command with
  | next count => exact h.call _
  | run limit => exact h.call _
  | setBreakpoint p => exact h.call _
  | clearAll => exact h.call _
  | clear p => exact h.call _
  | restart => exact h.restart
  | _ => exact h

/-- No command leads a session astray. -/
theorem InUse.obey (fuel : Nat) (command : Command) : InUse setup (s.obey fuel command) := by
  have hasked := h.asked fuel command
  cases command with
  | run limit =>
    simp only [Session.obey, Session.noted]
    split
    · exact hasked.noted
    · exact hasked
  | _ => exact hasked

theorem InUse.settings : s.initial.SameSettings s.machine := by
  induction h with
  | start h =>
    obtain ⟨-, m, reach, limit, -, -, -, rfl⟩ := start_ok h
    exact .refl m
  | @call s _ c ih =>
    rw [(s.call_sameConfiguration c).initial]
    exact ih.trans (s.call_answers c).settings
  | restart _ _ => exact .refl _
  | noted _ ih => exact ih
  | replaced _ _ ih => exact ih

theorem InUse.fed : s.machine.Fed := by
  obtain ⟨-, hm⟩ := h.configured
  exact (Setup.machine_fed hm).of_sameSettings h.settings

theorem InUse.maxSteps {limit : Option Int} (hl : setup.maxSteps = .ok limit) : s.machine.maxSteps = limit := by
  obtain ⟨-, hm⟩ := h.configured
  have hlimit := Except.ok.inj ((Setup.maxSteps_eq hm).symm.trans hl)
  rw [h.settings.maxSteps, hlimit]

end InUse

theorem Tracks.steps_nonneg {m : Machine} {reach limit : Int} {k : Nat} {failure : Option Fault}
    (h : Tracks m reach limit s k failure) (hm : m.steps = 0) : 0 ≤ s.machine.steps := by
  cases h.status with
  | running _ _ hk _ =>
    have hsteps := Machine.after_steps hk
    omega
  | ended _ _ hn _ _ =>
    have hsteps := Machine.after_steps hn
    omega
  | failed _ hk _ he =>
    have hsteps := Machine.after_steps hk
    have hsame := (Machine.cycle_error_counters he).2
    omega

/-- How the calls of a session in use fail: at the step limit, or at a cell that is no byte. -/
inductive Reported : Except Stop (List Snapshot) → Prop where
  | ok (xs : List Snapshot) : Reported (.ok xs)
  | limit : Reported (.error (.fault .stepLimit))
  | value (v : Datum) : Reported (.error (.fault (.notAByte v)))

theorem InUse.call_reported (hi : ∀ v ∈ setup.input, ∃ n, v = .integer n) (h : InUse setup s) (c : Call)
    (hc : (s.call c).2 ≠ .error .unfinished) : Reported (s.call c).2 := by
  obtain ⟨hendless, reach, limit, k, failure, ht⟩ := h.tracks hi
  have hcall := ht.call hendless c
  generalize s.call c = r at hcall hc
  cases hcall with
  | returns => exact .ok _
  | @fails t j xs f _ ht' _ =>
    cases ht'.status with
    | failed _ hk hm he =>
      obtain ⟨hf, -⟩ | ⟨v, hf⟩ := hendless.cycle_fault hk hm he
      · obtain rfl := Stop.fault.inj hf
        exact .limit
      · obtain rfl := Stop.fault.inj hf
        exact .value v
  | cutOff => exact absurd rfl hc

/-- A session with a step limit answers all that a command asks of it, as soon as a run may take as many steps as
the limit and one more. -/
theorem InUse.asked_reported (hi : ∀ v ∈ setup.input, ∃ n, v = .integer n) (h : InUse setup s) {limit : Int}
    (hl : setup.maxSteps = .ok (some limit)) {fuel : Nat} (hfuel : limit.toNat + 1 < fuel) (command : Command) :
    Reported (s.asked fuel command).2 := by
  have hbounded : ∀ c : Call, c.bounded = true → Reported (s.call c).2 := by
    intro c hc
    exact h.call_reported hi c ((s.call_answers c).answered h.fed hc)
  cases command with
  | next count => exact hbounded _ rfl
  | run bound =>
    cases bound with
    | some n => exact hbounded _ rfl
    | none =>
      obtain ⟨-, reach, kept, k, failure, ht⟩ := h.tracks hi
      have hsteps := ht.steps_nonneg (Setup.machine_steps h.configured.2)
      obtain ⟨t, y, hy, hrun⟩ := exists_runFrom (h.maxSteps hl) h.fed []
      have hleft : s.left limit < fuel := by
        have hle := s.left_le limit
        have hmachine : s.machine.left limit = (limit - s.machine.steps).toNat := rfl
        omega
      have hanswer : (s.call (.run fuel none)).2 = y := congrArg Prod.snd (hrun fuel hleft)
      exact h.call_reported hi _ (hanswer ▸ hy)
  | setBreakpoint p => exact hbounded _ rfl
  | clearAll => exact hbounded _ rfl
  | clear p => exact hbounded _ rfl
  | _ => exact .ok []

end Session

namespace Console
variable {c c' : Console} {fuel : Nat}

structure Writes (c c' : Console) : Prop where
  output : ∃ text, c'.output = c.output ++ text
  errors : ∃ text, c'.errors = c.errors ++ text

section Writes

theorem Writes.refl (c : Console) : c.Writes c :=
  ⟨⟨"", by simp⟩, ⟨"", by simp⟩⟩

theorem Writes.trans {c'' : Console} (h : c.Writes c') (h' : c'.Writes c'') : c.Writes c'' := by
  obtain ⟨⟨text, ho⟩, text', he⟩ := h
  obtain ⟨⟨more, ho'⟩, more', he'⟩ := h'
  refine ⟨⟨text ++ more, ?_⟩, text' ++ more', ?_⟩
  · rw [ho', ho, String.append_assoc]
  · rw [he', he, String.append_assoc]

theorem withSession_writes (c : Console) (s : Session) : c.Writes (c.withSession s) :=
  ⟨⟨"", by simp [withSession]⟩, ⟨"", by simp [withSession]⟩⟩

theorem print_writes (c : Console) (line : String) : c.Writes (c.print line) :=
  ⟨⟨line ++ "\n", by simp [print, String.append_assoc]⟩, ⟨"", by simp [print]⟩⟩

theorem complain_writes (c : Console) (line : String) : c.Writes (c.complain line) :=
  ⟨⟨"", by simp [complain]⟩, ⟨line ++ "\n", by simp [complain, String.append_assoc]⟩⟩

theorem prompt_writes (c : Console) : c.Writes c.prompt :=
  ⟨⟨"(viz) ", rfl⟩, ⟨"", by simp [prompt]⟩⟩

theorem printState_writes (c : Console) (x : Snapshot) : c.Writes (c.printState x) :=
  (c.print_writes _).trans (print_writes _ _)

theorem printStates_writes (c : Console) (xs : List Snapshot) : c.Writes (c.printStates xs) := by
  induction xs generalizing c with
  | nil => exact .refl c
  | cons x xs ih => exact (c.printState_writes x).trans (ih _)

@[simp] theorem print_session (c : Console) (line : String) : (c.print line).session = c.session := rfl

@[simp] theorem complain_session (c : Console) (line : String) : (c.complain line).session = c.session := rfl

@[simp] theorem prompt_session (c : Console) : c.prompt.session = c.session := rfl

@[simp] theorem withSession_session (c : Console) (s : Session) : (c.withSession s).session = s := rfl

@[simp] theorem printState_session (c : Console) (x : Snapshot) : (c.printState x).session = c.session := rfl

@[simp] theorem printStates_session (c : Console) (xs : List Snapshot) :
    (c.printStates xs).session = c.session := by
  induction xs generalizing c with
  | nil => rfl
  | cons x xs ih => exact (ih _).trans (c.printState_session x)

end Writes

section Execute

@[simp] theorem showSteps_session (c : Console) (xs : List Snapshot) : (c.showSteps xs).session = c.session := by
  unfold showSteps
  split
  · rfl
  · split <;> rfl

theorem showSteps_writes (c : Console) (xs : List Snapshot) : c.Writes (c.showSteps xs) := by
  unfold showSteps
  split
  · exact c.printState_writes _
  · split
    · exact c.print_writes _
    · exact .refl c

@[simp] theorem showRun_session (c : Console) (xs : List Snapshot) :
    (c.showRun xs).session = Session.noted (c.session, .ok xs) := by
  cases xs with
  | nil =>
    simp only [showRun, List.getLast?_nil, Session.noted]
    split <;> rfl
  | cons x xs =>
    obtain ⟨y, hy⟩ : ∃ y, (x :: xs).getLast? = some y := ⟨_, List.getLast?_eq_some_getLast (by simp)⟩
    simp only [showRun, hy, Session.noted, printState_session]
    split
    · rfl
    · next hhit =>
      have hsame : { c.session with hit := none } = c.session := by rw [← hhit]
      exact hsame.symm

theorem showRun_writes (c : Console) (xs : List Snapshot) : c.Writes (c.showRun xs) := by
  unfold showRun
  split
  · dsimp only
    split
    · obtain ⟨houtput, herrors⟩ := (c.printState_writes _).trans (print_writes _ _)
      exact ⟨houtput, herrors⟩
    · exact c.printState_writes _
  · split
    · exact c.print_writes _
    · exact .refl c

/-- What a console says and does at a command that does not end it. -/
structure Reports (fuel : Nat) (c : Console) (command : Command) (c' : Console) : Prop where
  session : c'.session = c.session.obey fuel command
  writes : c.Writes c'
  number : command = .badNumber → c' = c.complain "数値が正しくありません。"
  unknown : command = .unknown → c' = c.print "不明なコマンドです。'help' を参照してください。"
  missing : command = .setNothing → c' = c.print "ブレークポイントを指定してください。"
  limit : (c.session.asked fuel command).2 = .error (.fault .stepLimit) →
    c' = (c.withSession (c.session.obey fuel command)).complain "ステップ上限に達しました。"
  fault : ∀ v, (c.session.asked fuel command).2 = .error (.fault (.notAByte v)) →
    c' = (c.withSession (c.session.obey fuel command)).complain s!"実行エラー: {(Fault.notAByte v).message}"

/-- A command that is carried out without a failure. -/
theorem Reports.of_ok {xs : List Snapshot} {command : Command} (hasked : (c.session.asked fuel command).2 = .ok xs)
    (hplain : command ≠ .badNumber ∧ command ≠ .unknown ∧ command ≠ .setNothing)
    (hsession : c'.session = c.session.obey fuel command) (hwrites : c.Writes c') :
    c.Reports fuel command c' where
  session := hsession
  writes := hwrites
  number h := absurd h hplain.1
  unknown h := absurd h hplain.2.1
  missing h := absurd h hplain.2.2
  limit h := by
    rw [hasked] at h
    cases h
  fault v h := by
    rw [hasked] at h
    cases h

/-- A command that is not carried out since it says nothing that could be. -/
theorem Reports.of_idle {command : Command} {complaint : Console}
    (hasked : c.session.asked fuel command = (c.session, .ok []))
    (hobey : c.session.obey fuel command = c.session)
    (hsession : complaint.session = c.session) (hwrites : c.Writes complaint)
    (hnumber : command = .badNumber → complaint = c.complain "数値が正しくありません。")
    (hunknown : command = .unknown → complaint = c.print "不明なコマンドです。'help' を参照してください。")
    (hmissing : command = .setNothing → complaint = c.print "ブレークポイントを指定してください。") :
    c.Reports fuel command complaint where
  session := hsession.trans hobey.symm
  writes := hwrites
  number := hnumber
  unknown := hunknown
  missing := hmissing
  limit h := by
    rw [hasked] at h
    cases h
  fault v h := by
    rw [hasked] at h
    cases h

/-- A command that fails as the sessions of a console do is reported. -/
theorem report_reports {e : Stop} {command : Command}
    (hasked : (c.session.asked fuel command).2 = .error e) (he : Session.Reported (.error e)) :
    ∃ c', (c.withSession (c.session.obey fuel command)).report e = (c', .proceed) ∧
      c.Reports fuel command c' := by
  have hplain : command ≠ .badNumber ∧ command ≠ .unknown ∧ command ≠ .setNothing := by
    refine ⟨?_, ?_, ?_⟩
    all_goals
      rintro rfl
      cases hasked
  have hwrites : ∀ text, c.Writes ((c.withSession (c.session.obey fuel command)).complain text) := by
    intro text
    exact (c.withSession_writes _).trans (complain_writes _ text)
  cases he with
  | limit =>
    refine ⟨_, rfl, rfl, hwrites _, ?_, ?_, ?_, fun _ => rfl, ?_⟩
    · exact fun h => absurd h hplain.1
    · exact fun h => absurd h hplain.2.1
    · exact fun h => absurd h hplain.2.2
    · intro v hv
      rw [hasked] at hv
      cases hv
  | value v =>
    refine ⟨_, rfl, rfl, hwrites _, ?_, ?_, ?_, ?_, ?_⟩
    · exact fun h => absurd h hplain.1
    · exact fun h => absurd h hplain.2.1
    · exact fun h => absurd h hplain.2.2
    · intro h
      rw [hasked] at h
      cases h
    · intro w hw
      rw [hasked] at hw
      obtain rfl := Fault.notAByte.inj (Stop.fault.inj (Except.error.inj hw))
      rfl

/-- A command that does not end the console is carried out, or it is said why it is not, and the console goes on. -/
theorem execute_reports {command : Command} (hne : command ≠ .quit)
    (h : Session.Reported (c.session.asked fuel command).2) :
    ∃ c', c.execute fuel command = (c', .proceed) ∧ c.Reports fuel command c' := by
  cases command with
  | next count =>
    rcases hstep : c.session.stepForward count with ⟨s, e | xs⟩
    · have hasked : (c.session.asked fuel (.next count)).2 = .error e := congrArg Prod.snd hstep
      have hobey : c.session.obey fuel (.next count) = s := congrArg Prod.fst hstep
      have hreports := report_reports hasked (hasked ▸ h)
      rw [hobey] at hreports
      simpa only [execute, hstep] using hreports
    · refine ⟨(c.withSession s).showSteps xs, by simp only [execute, hstep], .of_ok
        (congrArg Prod.snd hstep) (by simp) ?_ ?_⟩
      · exact (showSteps_session _ _).trans (congrArg Prod.fst hstep).symm
      · exact (c.withSession_writes s).trans (showSteps_writes _ xs)
  | run limit =>
    rcases hrun : c.session.runUntilBreak fuel limit with ⟨s, e | xs⟩
    · have hasked : (c.session.asked fuel (.run limit)).2 = .error e := congrArg Prod.snd hrun
      have hobey : c.session.obey fuel (.run limit) = s := congrArg Session.noted hrun
      have hreports := report_reports hasked (hasked ▸ h)
      rw [hobey] at hreports
      simpa only [execute, hrun] using hreports
    · refine ⟨(c.withSession s).showRun xs, by simp only [execute, hrun], .of_ok
        (congrArg Prod.snd hrun) (by simp) ?_ ?_⟩
      · exact (showRun_session _ _).trans (congrArg Session.noted hrun).symm
      · exact (c.withSession_writes s).trans (showRun_writes _ xs)
  | state => exact ⟨_, rfl, .of_ok rfl (by simp) rfl (c.printState_writes _)⟩
  | history count => exact ⟨_, rfl, .of_ok rfl (by simp) (c.printStates_session _) (c.printStates_writes _)⟩
  | setBreakpoint p =>
    exact ⟨_, rfl, .of_ok rfl (by simp) rfl ((c.withSession_writes _).trans (print_writes _ _))⟩
  | breakpoints =>
    simp only [execute]
    split
    · exact ⟨_, rfl, .of_ok rfl (by simp) rfl (c.print_writes _)⟩
    · exact ⟨_, rfl, .of_ok rfl (by simp) rfl (c.print_writes _)⟩
  | clearAll => exact ⟨_, rfl, .of_ok rfl (by simp) rfl ((c.withSession_writes _).trans (print_writes _ _))⟩
  | clear p =>
    rcases hremove : c.session.removeBreakpoint p with ⟨s, removed⟩
    have hobey : c.session.obey fuel (.clear p) = s := congrArg Prod.fst hremove
    have hwrites : ∀ text, c.Writes ((c.withSession s).print text) := by
      intro text
      exact (c.withSession_writes s).trans (print_writes _ text)
    simp only [execute, hremove]
    cases removed with
    | true => exact ⟨_, rfl, .of_ok rfl (by simp) hobey.symm (hwrites _)⟩
    | false => exact ⟨_, rfl, .of_ok rfl (by simp) hobey.symm (hwrites _)⟩
  | restart =>
    have hwrites := (c.withSession_writes c.session.restart).trans (print_writes _ "セッションを再開しました。")
    exact ⟨_, rfl, .of_ok rfl (by simp) rfl (hwrites.trans (printState_writes _ _))⟩
  | quit => exact absurd rfl hne
  | help => exact ⟨_, rfl, .of_ok rfl (by simp) rfl (c.print_writes _)⟩
  | setNothing => exact ⟨_, rfl, .of_idle rfl rfl rfl (c.print_writes _) nofun nofun fun _ => rfl⟩
  | unknown => exact ⟨_, rfl, .of_idle rfl rfl rfl (c.print_writes _) nofun (fun _ => rfl) nofun⟩
  | badNumber => exact ⟨_, rfl, .of_idle rfl rfl rfl (c.complain_writes _) (fun _ => rfl) nofun nofun⟩

end Execute

end Console

end Brainfuck.Debugger
