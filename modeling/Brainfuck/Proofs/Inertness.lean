import Brainfuck.Proofs.Faulting
import Brainfuck.Proofs.Judges
import Brainfuck.Proofs.Usage

/-! Faults of sessions that are reported. The request in which the machine of a session fails is answered with the
failure. From then on, up to its next reset, the session is inert: requests to go on find nothing left to do, and what
it shows stays as it is. -/
namespace Brainfuck

namespace Debugger.Session
variable {setup : Setup} {s : Session}

theorem InUse.told (hi : ∀ v ∈ setup.input, ∃ n, v = .integer n) (h : InUse setup s) :
    s.stepper.reach = .ok s.reach := by
  induction h with
  | start h =>
    obtain ⟨-, m, reach, limit, -, -, -, rfl⟩ := start_ok h
    rfl
  | @call s h c ih =>
    obtain ⟨hendless, reach, limit, k, failure, ht⟩ := h.tracks hi
    obtain rfl : s.reach = reach := Except.ok.inj (ih.symm.trans ht.told)
    have hcall := ht.call hendless c
    rw [(s.call_sameConfiguration c).reach]
    generalize s.call c = r at hcall
    cases hcall with
    | returns _ ht' => exact ht'.told
    | fails _ ht' _ => exact ht'.told
    | cutOff _ ht' _ => exact ht'.told
  | restart _ _ => rfl
  | noted _ ih => exact ih
  | replaced _ _ ih => exact ih

theorem InUse.exists_tracks (hi : ∀ v ∈ setup.input, ∃ n, v = .integer n) (h : InUse setup s) :
    s.initial.Endless ∧ ∃ k failure, Tracks s.initial s.reach s.historyLimit s k failure := by
  obtain ⟨hendless, reach, limit, k, failure, ht⟩ := h.tracks hi
  obtain rfl : s.reach = reach := Except.ok.inj ((h.told hi).symm.trans ht.told)
  obtain rfl := ht.keeps
  exact ⟨hendless, k, failure, ht⟩

end Debugger.Session

namespace Api

namespace Payload

theorem gap_ofText? (text : Option String) : (ofText? text).gap? = none := by
  cases text with
  | none => rfl
  | some text => exact gap?_ofString text

theorem gap_ofInteger? (n : Option Int) : (ofInteger? n).gap? = none := by
  cases n <;> rfl

theorem gap_ofSnapshot (x : Snapshot) : (ofSnapshot x).gap? = none := by
  simp [ofSnapshot, Json.gap?, Json.gapInMembers?, Json.Literal.points, gap?_ofString, gap_ofText?,
    gapAmong_integers]

theorem gapAmong_snapshots (xs : List Snapshot) : Json.gapAmong? (xs.map ofSnapshot) = none := by
  induction xs with
  | nil => rfl
  | cons x xs ih =>
    rw [List.map_cons, Json.gapAmong?, gap_ofSnapshot, ih]
    rfl

/-- Only the code of a session can be broken. -/
theorem gapInMembers_common (r : Record) : Json.gapInMembers? (common r) = Text.gap? r.code.points := by
  simp [common, Json.gap?, Json.gapInMembers?, Json.Literal.points, gap?_ofString, gap_ofInteger?,
    gapAmong_snapshots, gapAmong_integers]

theorem gap_ofRecord (r : Record) : (ofRecord r).gap? = Text.gap? r.code.points := by
  simp [ofRecord, Json.gap?, Json.gapInMembers?, Json.Literal.points, gap?_ofString, gap_ofSnapshot,
    gapInMembers_common]

theorem gap_ofSteps_eq (r : Record) (xs : List Snapshot) : (ofSteps r xs).gap? = Text.gap? r.code.points := by
  simp [ofSteps, Json.gap?, Json.gapInMembers?, Json.Literal.points, gap?_ofString, gapAmong_snapshots,
    gapInMembers_common]

end Payload

open Debugger (Setup Session)

namespace Task

/-- Whether a task asks a session to go on. -/
def moves : Task → Bool
  | step _ => true
  | run _ _ => true
  | _ => false

def bound : Task → Option Int
  | step count => some count
  | run limit _ => limit
  | _ => none

/-- Those of a session's breakpoints that a task heeds. -/
def heeded (b : Breakpoints) : Task → Breakpoints
  | run _ true => {}
  | _ => b

/-- What comes of a session that is asked to go on, and what it shows. -/
def stride (fuel : Nat) (s : Session) : Task → Session × Except Stop (List Snapshot)
  | step count => s.stepForward count
  | run limit ignore => Service.runSession fuel s limit ignore
  | _ => (s, .ok [])

variable {setup : Setup} {s u : Session} {t : Task} {fuel j : Nat} {f : Fault} {r : Record}

theorem perform_of_moves (ht : t.moves = true) (fuel : Nat) (r : Record) :
    t.perform fuel r = moved r (t.stride fuel r.session) := by
  cases t with
  | step count => rfl
  | run limit ignore => rfl
  | _ => cases ht

/-- A session can fail in two ways only: no step is left to it, or it writes what is no byte. -/
theorem kind_of_failsAt (hi : ∀ v ∈ setup.input, ∃ n, v = .integer n) (h : Session.InUse setup s)
    (hf : s.finished = false) (hfails : s.machine.FailsAt j f) :
    f.kind = .stepLimitExceeded ∨ f.kind = .valueOutOfRange := by
  obtain ⟨hendless, k, failure, htracks⟩ := h.exists_tracks hi
  obtain ⟨m₁, m₂, hj, hlive, he⟩ := hfails
  cases htracks.status with
  | ended hend => rw [hf] at hend; cases hend
  | failed hend => rw [hf] at hend; cases hend
  | running _ _ hk _ =>
    obtain ⟨hlimit, -⟩ | ⟨v, hbyte⟩ := hendless.cycle_fault ((Machine.after_add hk j).trans hj) hlive he
    · obtain rfl := Stop.fault.inj hlimit
      exact Or.inl rfl
    · obtain rfl := Stop.fault.inj hbyte
      exact Or.inr rfl

section Stride
variable (hi : ∀ v ∈ setup.input, ∃ n, v = .integer n) (h : Session.InUse setup s) (ht : t.moves = true)
  (hbound : ∀ n, t.bound = some n → 1 ≤ n) (hends : (t.stride fuel s).2 ≠ .error .unfinished)
include hi h ht hbound hends

/-- A session fails when it goes on exactly if its machine runs into a failure. -/
theorem stride_error_iff :
    (t.stride fuel s).2 = .error (.fault f) ↔
      s.finished = false ∧ ∃ j, s.machine.RunsInto (t.heeded s.breakpoints) t.bound j f := by
  obtain ⟨hendless, k, failure, htracks⟩ := h.exists_tracks hi
  cases t with
  | step count => exact htracks.stepForward_error_iff hendless (hbound count rfl)
  | run limit ignore =>
    have hasks := Service.asks_of_runSession hbound hends
    cases ignore with
    | false => exact htracks.runUntilBreak_error_iff hendless hasks hends
    | true => exact (htracks.marked {} none).runUntilBreak_error_iff hendless hasks hends
  | _ => cases ht

/-- Then it has carried out all instructions in front of the failure. -/
theorem stride_failed (hfails : t.stride fuel s = (u, .error (.fault f))) : ∃ j, s.Failed u j f := by
  obtain ⟨hendless, k, failure, htracks⟩ := h.exists_tracks hi
  have hrun : ∀ {s' u' : Session} {limit : Option Int}, Session.Call.Asks (.run fuel limit) →
      Session.Tracks s.initial s'.reach s'.historyLimit s' k failure →
        s'.runUntilBreak fuel limit = (u', .error (.fault f)) → ∃ j, s'.Failed u' j f := by
    intro s' u' limit hasks htracks hfails
    cases limit with
    | some n =>
      rw [Session.runUntilBreak_some] at hfails
      exact htracks.failed hendless hasks hfails
    | none =>
      obtain hstride | ⟨_, _, hcut, -⟩ := Session.runUntilBreak_none fuel s'
      · rw [hstride] at hfails
        exact htracks.failed hendless hasks hfails
      · cases hcut.symm.trans hfails
  cases t with
  | step count => exact htracks.failed hendless (hbound count rfl) hfails
  | run limit ignore =>
    have hasks := Service.asks_of_runSession hbound hends
    cases ignore with
    | false => exact hrun hasks htracks hfails
    | true =>
      simp only [stride, Service.runSession, if_true] at hfails
      rcases hcall : Session.runUntilBreak fuel { s with breakpoints := {}, hit := none } limit with ⟨u', y⟩
      rw [hcall] at hfails
      obtain ⟨rfl, rfl⟩ := Prod.mk.inj hfails
      obtain ⟨j, hfails, hf, -, hshown, hcurrent, hhistory⟩ := hrun hasks (htracks.marked {} none) hcall
      exact ⟨j, hfails, hf, rfl, hshown, hcurrent, hhistory⟩
  | _ => cases ht

end Stride

theorem stride_ends (ht : t.moves = true) (hends : (t.perform fuel r).2 ≠ .error .unfinished) :
    (t.stride fuel r.session).2 ≠ .error .unfinished := by
  intro hcut
  rw [perform_of_moves ht, moved, hcut] at hends
  exact hends rfl

section Perform
variable (hi : ∀ v ∈ setup.input, ∃ n, v = .integer n) (h : Session.InUse setup r.session) (ht : t.moves = true)
  (hbound : ∀ n, t.bound = some n → 1 ≤ n) (hends : (t.perform fuel r).2 ≠ .error .unfinished)
include hi h ht hbound hends

/-- The failure that the machine runs into is the answer. -/
theorem perform_failed (hf : r.session.finished = false)
    (hinto : r.session.machine.RunsInto (t.heeded r.session.breakpoints) t.bound j f) :
    ∃ r', t.perform fuel r = (some r', .ok (.explained 409 f.message)) ∧ r.session.Failed r'.session j f := by
  have hstride := stride_ends ht hends
  have hkind := kind_of_failsAt hi h hf hinto.fails
  have hmachine : f.isMachine = true := by
    unfold Fault.isMachine
    obtain hkind | hkind := hkind <;> rw [hkind] <;> rfl
  have herror := (stride_error_iff hi h ht hbound hstride).mpr ⟨hf, j, hinto⟩
  rcases hu : t.stride fuel r.session with ⟨u, y⟩
  rw [hu] at herror
  obtain rfl : y = .error (.fault f) := herror
  obtain ⟨j', hfailed⟩ := stride_failed hi h ht hbound hstride hu
  obtain ⟨rfl, -⟩ := hinto.fails.unique hfailed.fails
  refine ⟨{ r with session := u }, ?_, hfailed⟩
  rw [perform_of_moves ht, hu, moved, concluded, if_pos hmachine]

/-- A conflict is the answer exactly if the machine runs into a failure. -/
theorem perform_conflict_iff :
    (∃ response, (t.perform fuel r).2 = .ok response ∧ response.status = 409) ↔
      r.session.finished = false ∧
        ∃ j f, r.session.machine.RunsInto (t.heeded r.session.breakpoints) t.bound j f := by
  constructor
  · rintro ⟨response, hok, hstatus⟩
    have hstride := stride_ends ht hends
    rw [perform_of_moves ht] at hok
    rcases hu : t.stride fuel r.session with ⟨u, y⟩
    rw [hu, moved] at hok
    cases y with
    | ok xs =>
      obtain ⟨rfl, -⟩ := Response.ofValue_ok hok 200
      cases hstatus
    | error e =>
      cases e with
      | unfinished => cases hok
      | fault f =>
        have herror : (t.stride fuel r.session).2 = .error (.fault f) := congrArg Prod.snd hu
        obtain ⟨hf, j, hinto⟩ := (stride_error_iff hi h ht hbound hstride).mp herror
        exact ⟨hf, j, f, hinto⟩
  · rintro ⟨hf, j, f, hinto⟩
    obtain ⟨r', hperform, -⟩ := perform_failed hi h ht hbound hends hf hinto
    rw [hperform]
    exact ⟨_, rfl, rfl⟩

end Perform

/-- Nothing comes of a session that is finished, but that no breakpoint has been hit. -/
theorem stride_of_finished (hf : s.finished = true) (ht : t.moves = true)
    (hbound : ∀ n, t.bound = some n → 1 ≤ n) (hfuel : 0 < fuel) :
    t.stride fuel s = ({ s with hit := none }, .ok []) := by
  cases t with
  | step count => exact Session.stepForward_of_finished hf (hbound count rfl)
  | run limit ignore =>
    have hasks : Session.Call.Asks (.run fuel limit) := by
      cases limit with
      | some n => exact hbound n rfl
      | none =>
        have hpos : (1 : Int) ≤ fuel := by omega
        exact hpos
    cases ignore with
    | false => exact Session.runUntilBreak_of_finished hf hasks
    | true =>
      have hbare : Session.runUntilBreak fuel { s with breakpoints := {}, hit := none } limit =
          ({ s with breakpoints := {}, hit := none }, .ok []) :=
        Session.runUntilBreak_of_finished (s := { s with breakpoints := {}, hit := none }) hf hasks
      simp only [stride, Service.runSession, hbare, if_true]
  | _ => cases ht

end Task

/-- No task but a reset moves a session that is finished. -/
theorem Task.perform_still {t : Task} {fuel : Nat} {r r' : Record} (hf : r.session.finished = true)
    (ht : t ≠ .reset) (hr : (t.perform fuel r).1 = some r') : r.session.Still r'.session := by
  cases t with
  | view =>
    obtain rfl := Option.some.inj hr
    exact .refl _
  | delete => cases hr
  | reset => exact absurd rfl ht
  | step count =>
    obtain rfl := Option.some.inj hr
    exact Session.call_still hf (.step count)
  | run limit ignore =>
    obtain rfl := Option.some.inj hr
    cases ignore with
    | false => exact Session.call_still hf (.run fuel limit)
    | true =>
      have hrun := Session.call_still (s := { r.session with breakpoints := {}, hit := none }) hf (.run fuel limit)
      have hbare : r.session.Still { r.session with breakpoints := {}, hit := none } := Session.still_marked _ _ _
      exact (hbare.trans hrun).trans (Session.still_marked _ _ _)
  | add p =>
    obtain rfl := Option.some.inj hr
    exact Session.call_still hf (.add p)
  | remove p =>
    obtain hremove | ⟨detail, hremove⟩ := perform_remove fuel r p
    · rw [hremove] at hr
      obtain rfl := Option.some.inj hr
      exact Session.call_still hf (.remove p)
    · rw [hremove] at hr
      obtain rfl := Option.some.inj hr
      exact .refl _

theorem Body.count_pos {ms : Json.Members} {n : Int} (h : Body.count ms = .ok n) : 1 ≤ n := by
  unfold Body.count Body.single Field.optional at h
  split at h
  · obtain rfl := Except.ok.inj h
    decide
  · next value _ =>
    cases hn : Field.integerFrom 1 value with
    | error d =>
      rw [hn] at h
      cases h
    | ok n' =>
      rw [hn] at h
      obtain rfl := Except.ok.inj h
      exact Field.le_of_integerFrom hn

/-- If a request has a bound it asks for one step at least. -/
theorem Request.task_bound {files : Bool} {id : String} {request : Request} {t : Task}
    (h : request.task? files = some (id, .ok t)) : ∀ n, t.bound = some n → 1 ≤ n := by
  intro n hn
  cases t with
  | step count =>
    obtain rfl := Option.some.inj hn
    cases Request.sends h with
    | step hbody =>
      obtain ⟨ms, -, hcount⟩ := exists_of_bind_ok hbody
      exact Body.count_pos hcount
  | run limit ignore => exact Request.run_limit h n hn
  | _ => cases hn

def Request.resets (files : Bool) (id : String) (request : Request) : Bool :=
  match request.task? files with
  | some (j, .ok .reset) => j == id
  | _ => false

/-- How a service stands to a session that has failed as `q`. Every request to go on finds that nothing is left to do,
and every view shows the same state and the same history. -/
structure Service.Inert (fuel : Nat) (files : Option Files) (id : String) (q : Record) (v : Service) : Prop where
  moved : ∀ request t, request.task? files.isSome = some (id, .ok t) → t.moves = true →
    ∃ r, (v.answer fuel request).2 = .ok ⟨200, .json (Payload.ofSteps r [])⟩ ∧
      r.session.finished = true ∧ r.session.hit = none ∧ r.session.history = q.session.history
  viewed : ∀ request, request.task? files.isSome = some (id, .ok .view) →
    ∃ r, (v.answer fuel request).2 = .ok ⟨200, .json (Payload.ofRecord r)⟩ ∧ r.session.finished = true ∧
      r.session.current = q.session.current ∧ r.session.history = q.session.history

/-- What becomes of a session that has failed as `q`, behind further requests without a reset of it: no conflict is
answered any more, and it is inert unless it has been deleted. -/
structure Service.Settled (fuel : Nat) (files : Option Files) (id : String) (q : Record) (v : Service) : Prop where
  once : ∀ later request t response, (∀ x ∈ later, x.resets files.isSome id = false) →
    request.task? files.isSome = some (id, .ok t) → t.moves = true →
      ((v.after fuel later).answer fuel request).2 = .ok response → response.status ≠ 409
  inert : ∀ later, (∀ x ∈ later, x.resets files.isSome id = false) →
    (∀ x ∈ later, x.deletes files.isSome id = false) → Inert fuel files id q (v.after fuel later)

/-- How the failures of a session are reported by a service, whatever is asked of it. A request to go on that comes to
an end is a conflict exactly if the machine runs into a failure; it tells which one, which is of one of two kinds; and
then all has been carried out in front of it, and the session has settled. -/
structure Service.ReportsOnce (fuel : Nat) (files : Option Files) (id : String) (v : Service) : Prop where
  conflict_iff : ∀ behind r request t, (v.after fuel behind).find id = some r →
    request.task? files.isSome = some (id, .ok t) → t.moves = true →
      ((v.after fuel behind).answer fuel request).2 ≠ .error .unfinished →
        ((∃ response, ((v.after fuel behind).answer fuel request).2 = .ok response ∧ response.status = 409) ↔
          r.session.finished = false ∧
            ∃ j f, r.session.machine.RunsInto (t.heeded r.session.breakpoints) t.bound j f)
  reported : ∀ behind r request t j f, (v.after fuel behind).find id = some r →
    request.task? files.isSome = some (id, .ok t) → t.moves = true →
      ((v.after fuel behind).answer fuel request).2 ≠ .error .unfinished → r.session.finished = false →
        r.session.machine.RunsInto (t.heeded r.session.breakpoints) t.bound j f →
          ((v.after fuel behind).answer fuel request).2 = .ok (.explained 409 f.message) ∧
            (f.kind = .stepLimitExceeded ∨ f.kind = .valueOutOfRange) ∧
              ∃ q, ((v.after fuel behind).answer fuel request).1.find id = some q ∧
                r.session.Failed q.session j f ∧
                  Settled fuel files id q ((v.after fuel behind).answer fuel request).1

namespace Service
variable {fresh : Nat → String} {room : Room} {files : Option Files} {id : String} {v : Service} {k fuel : Nat}
  {q r : Record} {setup : Setup} {requests : List Request}

theorem ofValue_of_gap {value : Json} (h : value.gap? = none) (status : Nat) :
    Response.ofValue status value = .ok ⟨status, .json value⟩ := by
  simp only [Response.ofValue, h]

section Failed
variable (h : v.Sound fresh room files) (hk : k < v.store.created) (hq : v.find (fresh k) = some q)
  (hf : q.session.finished = true)
include h hk hq hf

/-- Behind its failure a session is still what it was, unless it is gone. -/
theorem Sound.find_after_failure (hresets : ∀ x ∈ requests, x.resets files.isSome (fresh k) = false) :
    ∀ r, (v.after fuel requests).find (fresh k) = some r →
      q.session.Still r.session ∧ r.code = q.code := by
  refine h.find_after_asked hk ?_ ?_
  · rintro request hmem r r' t ht ⟨hstill, hcode⟩ hr'
    have hreset : t ≠ .reset := by
      rintro rfl
      have hresets := hresets request hmem
      rw [Request.resets, ht] at hresets
      simp at hresets
    have hfinished : r.session.finished = true := hstill.shows.1.trans hf
    obtain ⟨r'', hr'', hkeeps⟩ | rfl := t.perform_keeps fuel r
    · obtain rfl := Option.some.inj (hr''.symm.trans hr')
      exact ⟨hstill.trans (Task.perform_still hfinished hreset hr'), hkeeps.code.trans hcode⟩
    · cases hr'
  · intro r hr
    obtain rfl := Option.some.inj (hq.symm.trans hr)
    exact ⟨.refl _, rfl⟩

/-- A session that has failed has settled. -/
theorem Sound.settled (hfuel : 0 < fuel) (hcode : Text.gap? q.code.points = none) :
    Settled fuel files (fresh k) q v := by
  have hperforms : ∀ later request t r, (∀ x ∈ later, x.resets files.isSome (fresh k) = false) →
      (v.after fuel later).find (fresh k) = some r → request.task? files.isSome = some (fresh k, .ok t) →
        t.moves = true → ((v.after fuel later).answer fuel request).2 =
          .ok ⟨200, .json (Payload.ofSteps { r with session := { r.session with hit := none } } [])⟩ := by
    intro later request t r hresets hr ht hmoves
    obtain ⟨hstill, hsame⟩ := h.find_after_failure hk hq hf hresets r hr
    have hfinished : r.session.finished = true := hstill.shows.1.trans hf
    have hstride := Task.stride_of_finished hfinished hmoves (Request.task_bound ht) hfuel
    have hanswer := ((h.after fuel later).performs ht fuel).answer
    rw [hr] at hanswer
    simp only [Task.outcome, Task.perform_of_moves hmoves, hstride, Task.moved, Task.concluded] at hanswer
    rw [hanswer]
    refine ofValue_of_gap ?_ 200
    rw [Payload.gap_ofSteps_eq]
    exact hsame.symm ▸ hcode
  constructor
  · intro later request t response hresets ht hmoves hok
    cases hr : (v.after fuel later).find (fresh k) with
    | none =>
      obtain ⟨missing, hmissing, hstatus⟩ := (h.after fuel later).answer_missing hr ht fuel
      obtain rfl := Except.ok.inj (hok.symm.trans hmissing)
      rw [hstatus]
      decide
    | some r =>
      have hanswer := hperforms later request t r hresets hr ht hmoves
      obtain rfl := Except.ok.inj (hok.symm.trans hanswer)
      have hstatus : (200 : Nat) ≠ 409 := by decide
      exact hstatus
  · intro later hresets hdeletes
    obtain ⟨r, hr, -⟩ := h.find_after_keeps hq fuel hdeletes
    obtain ⟨hstill, hsame⟩ := h.find_after_failure hk hq hf hresets r hr
    obtain ⟨hfinished, hcurrent, hhistory⟩ := hstill.shows
    constructor
    · intro request t ht hmoves
      exact ⟨_, hperforms later request t r hresets hr ht hmoves, hfinished.trans hf, rfl, hhistory⟩
    · intro request ht
      have hanswer := ((h.after fuel later).performs ht fuel).answer
      rw [hr] at hanswer
      simp only [Task.outcome, Task.perform, Task.shown] at hanswer
      refine ⟨r, ?_, hfinished.trans hf, hcurrent, hhistory⟩
      rw [hanswer]
      refine ofValue_of_gap ?_ 200
      rw [Payload.gap_ofRecord, hsame]
      exact hcode

end Failed

/-- The failures of a session in use are reported once. -/
theorem Sound.reportsOnce (h : v.Sound fresh room files) (hk : k < v.store.created)
    (hi : ∀ v ∈ setup.input, ∃ n, v = .integer n) (hq : v.find (fresh k) = some q) (huses : q.Uses setup q)
    (hfuel : 0 < fuel) (hcode : Text.gap? q.code.points = none) : ReportsOnce fuel files (fresh k) v := by
  have hused : ∀ {behind r}, (v.after fuel behind).find (fresh k) = some r → q.Uses setup r := by
    intro behind r hr
    refine h.find_after_of (fun _ _ _ hr' ht => hr'.perform ht) hk ?_ behind r hr
    intro r' hr'
    obtain rfl := Option.some.inj (hq.symm.trans hr')
    exact huses
  constructor
  · intro behind r request t hr ht hmoves hends
    have hanswer := ((h.after fuel behind).performs ht fuel).answer
    rw [hr] at hanswer
    rw [hanswer] at hends ⊢
    exact Task.perform_conflict_iff hi (hused hr).inUse hmoves (Request.task_bound ht) hends
  · intro behind r request t j f hr ht hmoves hends hf hinto
    have hperforms := (h.after fuel behind).performs ht fuel
    rw [hr] at hperforms
    rw [hperforms.answer] at hends
    obtain ⟨r', hperform, hfailed⟩ :=
      Task.perform_failed hi (hused hr).inUse hmoves (Request.task_bound ht) hends hf hinto
    have hfind : ((v.after fuel behind).answer fuel request).1.find (fresh k) = some r' :=
      hperforms.here.trans (congrArg Prod.fst hperform)
    have hkind := Task.kind_of_failsAt hi (hused hr).inUse hf hinto.fails
    have hlt : k < ((v.after fuel behind).answer fuel request).1.store.created := by
      rw [hperforms.created]
      exact Nat.lt_of_lt_of_le hk (h.created_le_after fuel behind)
    have hkept : q.Uses setup r' := (hused hr).perform (congrArg Prod.fst hperform)
    refine ⟨hperforms.answer.trans (congrArg Prod.snd hperform), hkind, r', hfind, hfailed, ?_⟩
    refine ((h.after fuel behind).answer fuel request).settled hlt hfind hfailed.finished hfuel ?_
    rw [hkept.keeps.code]
    exact hcode

/-- Every session that is answered when it is created reports its failures once, and is inert from then on. -/
theorem faults_reported_once (hfresh : Function.Injective fresh) (hfuel : 0 < fuel) {before : List Request}
    {create : Request} {created : Response} (hv : (vacant fresh room files 0).after fuel before = v)
    (habsent : v.find id = none) (hcreates : (v.answer fuel create).1.find id ≠ none)
    (hcreated : (v.answer fuel create).2 = .ok created) :
    ReportsOnce fuel files id (v.answer fuel create).1 := by
  have hsound : v.Sound fresh room files := hv ▸ (sound_vacant hfresh room files 0).after fuel before
  obtain ⟨hid, code, setup, hs, hsome⟩ := hsound.exists_creation habsent hcreates
  obtain ⟨q, hq⟩ := Option.isSome_iff_exists.mp hsome
  have hperforms := hsound.creates hid hs fuel
  have hanswered := creation_answer hq (hperforms.answer.symm.trans hcreated)
  have hcode : Text.gap? q.code.points = none := by
    rw [← Payload.gap_ofRecord]
    cases hgap : (Payload.ofRecord q).gap? with
    | none => rfl
    | some gap =>
      rw [Response.ofValue, hgap] at hanswered
      cases hanswered
  have huses : q.Uses setup q := ⟨.refl q, .start (creation_begin hq).2⟩
  rw [hsound.nextId] at hid
  have hk := hsound.lt_created hs (hid ▸ hsome) fuel
  have hfind := hperforms.here.trans hq
  subst hid
  exact (hsound.answer fuel create).reportsOnce hk (Request.setup_input hs) hfind huses hfuel hcode

/-- A request for a session that remembers one state and that has a step less to take than its program. -/
def shortOfSteps : Request :=
  ⟨"POST", "/api/session",
    "\x7b\"code\":\"+++\",\"max_steps\":2,\"history_limit\":1,\"memory_size\":1\x7d".toUTF8.toList⟩

theorem faults_reported_once_short_of_steps :
    let v := ((vacant numbered .all none 0).answer 1 shortOfSteps).1
    let w := (v.answer 1 (step "S0" 3)).1
    (v.answer 1 (step "S0" 3)).2 = .ok (.explained 409 "Brainfuck program exceeded allowed step count") ∧
      ∃ r q, v.find "S0" = some r ∧ w.find "S0" = some q ∧ r.session.Failed q.session 2 .stepLimit ∧
        Settled 1 none "S0" q w ∧ Inert 1 none "S0" q (w.after 1 [step "S0" 1]) := by
  intro v w
  have habsent : ((vacant numbered .all none 0).find "S0").isNone = true := by decide +kernel
  have hcreated :
      (((vacant numbered .all none 0).answer 1 shortOfSteps).2.map Response.status).toOption = some 201 := by
    decide +kernel
  have hfound : (v.find "S0").isSome = true := by decide +kernel
  have hstep : ((v.answer 1 (step "S0" 3)).2.map Response.status).toOption = some 409 := by decide +kernel
  have htask : (step "S0" 3).task? false = some ("S0", .ok (.step 3)) := by
    have hroute : (step "S0" 3).route? false = some (.step "S0") := by rfl
    have hbody : (Body.members (step "S0" 3).body >>= Body.count).toOption = some 3 := by decide +kernel
    rw [Request.task?, hroute, Option.bind_some, Route.task?, ok_of_toOption hbody]
    rfl
  have hresets : ∀ x ∈ [step "S0" 1], x.resets false "S0" = false := by decide +kernel
  have hdeletes : ∀ x ∈ [step "S0" 1], x.deletes false "S0" = false := by decide +kernel
  rw [Option.isNone_iff_eq_none] at habsent
  obtain ⟨created, hok, -⟩ := exists_of_map_ok (ok_of_toOption hcreated)
  obtain ⟨response, hconflict, hstatus⟩ := exists_of_map_ok (ok_of_toOption hstep)
  obtain ⟨r, hr⟩ := Option.isSome_iff_exists.mp hfound
  have hcreates : v.find "S0" ≠ none := by
    intro hnone
    cases hr.symm.trans hnone
  obtain ⟨hconflict_iff, hreported⟩ :=
    faults_reported_once numbered_injective Nat.one_pos (rfl : (vacant numbered .all none 0).after 1 [] = _) habsent
      hcreates hok
  have hends : (v.answer 1 (step "S0" 3)).2 ≠ .error .unfinished := by
    intro hcut
    cases hconflict.symm.trans hcut
  -- the machine runs into the failure, since the answer is a conflict
  obtain ⟨hf, j, f, hinto⟩ := (hconflict_iff [] r _ _ hr htask rfl hends).mp ⟨response, hconflict, hstatus⟩
  obtain ⟨hanswer, -, q, hq, hfailed, hsettled⟩ := hreported [] r _ _ j f hr htask rfl hends hf hinto
  have hlimit : ((v.find "S0").bind fun r => (r.session.machine.after 2).map fun m => (m.halted, m.limitReached)) =
      some (false, true) := by
    decide +kernel
  rw [hr, Option.bind_some] at hlimit
  obtain ⟨m, hm, hstands⟩ := Option.map_eq_some_iff.mp hlimit
  obtain ⟨hlive, hreached⟩ := Prod.mk.inj hstands
  have hfails : r.session.machine.FailsAt 2 .stepLimit :=
    ⟨m, m, hm, hlive, Machine.cycle_of_limitReached hreached⟩
  obtain ⟨rfl, rfl⟩ := hfails.unique hinto.fails
  exact ⟨hanswer, r, q, hr, hq, hfailed, hsettled, hsettled.inert _ hresets hdeletes⟩

/-- What has been carried out in front of a failure is not all remembered; what cannot be asked is refused behind the
failure as before it; and a session that is deleted is gone. -/
theorem failure_half_remembered :
    let v := (vacant numbered .all none 0).after 1 [shortOfSteps, step "S0" 3]
    ((vacant numbered .all none 0).answers 1 [shortOfSteps, step "S0" 3]).map
          (fun c => (c.2.map Response.status).toOption) =
        [some 201, some 409] ∧
      (v.find "S0").map (fun r => (r.session.machine.steps, r.session.history.toList.map Snapshot.step)) =
        some (2, [2]) ∧
      (v.answers 1 [step "S0" 0, delete "S0", step "S0" 1]).map (fun c => (c.2.map Response.status).toOption) =
        [some 422, some 204, some 404] := by
  decide +kernel

end Service

end Api
end Brainfuck
