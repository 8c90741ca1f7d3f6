import Brainfuck.Proofs.Creation

/-! Statuses. Whatever is asked of a service with values of the right types, a failure is no more than one of a few
statuses; and where nothing is found or something is refused, nothing has changed. -/
namespace Brainfuck

namespace Json
variable {x : Json}

def integer? : Json → Option Int
  | .integer n => some n
  | _ => none

def literal? : Json → Option Literal
  | .text l => some l
  | _ => none

theorem integer?_eq_some {n : Int} : x.integer? = some n ↔ x = .integer n := by
  cases x <;> simp [integer?]

theorem literal?_eq_some {l : Literal} : x.literal? = some l ↔ x = .text l := by
  cases x <;> simp [literal?]

end Json

namespace Api
open Debugger (Setup Session)

/-- The statuses of answers to requests, other than those for a new session. -/
def Response.statuses : List ℕ := [200, 204, 404, 409, 422]

/-- An answer with one of the statuses, and no failure that escapes. -/
def Response.Told (answer : Except Stop Response) : Prop :=
  ∃ response, answer = .ok response ∧ response.status ∈ statuses

/-- Whether the body of a request for a route has members of the right types. The one that has to be there may be
missing, as long as the body can be quoted. -/
def Request.Typed (request : Request) : Route → Prop
  | .sessions => ∃ ms c, Body.members request.body = .ok ms ∧ Configuration.SentIn c ms
  | .validation => ∃ ms l, Body.members request.body = .ok ms ∧ Field.Given ms "code" (.whole "") .text l
  | .step _ => ∃ ms n, Body.members request.body = .ok ms ∧ Field.Given ms "count" 1 .integer n
  | .run _ => ∃ ms limit ignore, Body.members request.body = .ok ms ∧
      Field.Given ms "limit" none Payload.ofInteger? limit ∧ Field.Given ms "ignore_breakpoints" false .truth ignore
  | .breakpoints _ => ∃ ms, Body.members request.body = .ok ms ∧
      ((∃ n, Json.member? ms "pc" = some (.integer n)) ∨ Json.member? ms "pc" = none ∧ Quotable (.object ms))
  | _ => True

variable {request : Request} {route : Route} {id : String} {fuel : ℕ}

/-- What is refused of a typed request can be quoted. -/
theorem Request.Typed.sendable (h : request.Typed route) {refusal : Refusal}
    (ht : route.task? request = some (id, .error refusal)) : refusal.Sendable := by
  cases route with
  | index => cases ht
  | file names => cases ht
  | validation => cases ht
  | sessions => cases ht
  | session j => cases ht
  | reset j => cases ht
  | step j =>
    obtain ⟨-, htask⟩ := Prod.mk.inj (Option.some.inj ht)
    obtain ⟨ms, n, hms, hn⟩ := h
    have hbody := error_of_map_error htask
    rw [hms] at hbody
    exact Body.count_sendable hn hbody
  | run j =>
    obtain ⟨-, htask⟩ := Prod.mk.inj (Option.some.inj ht)
    obtain ⟨ms, limit, ignore, hms, hlimit, hignore⟩ := h
    have hbody := error_of_map_error htask
    rw [hms] at hbody
    exact Body.run_sendable hlimit hignore hbody
  | breakpoints j =>
    obtain ⟨-, htask⟩ := Prod.mk.inj (Option.some.inj ht)
    obtain ⟨ms, hms, hpc⟩ := h
    have hbody := error_of_map_error htask
    rw [hms] at hbody
    exact Body.position_sendable hpc hbody
  | breakpoint j position =>
    obtain ⟨-, htask⟩ := Prod.mk.inj (Option.some.inj ht)
    cases hposition : Field.integerOfText position with
    | ok p =>
      rw [hposition] at htask
      cases htask
    | error d =>
      rw [hposition] at htask
      obtain rfl := Except.error.inj htask
      refine ⟨_, rfl, ?_⟩
      intro p hp
      obtain rfl := List.mem_singleton.mp hp
      exact ⟨⟨["path", "pc"], rfl⟩, quotable_text position⟩

section Told
variable {status : ℕ}

theorem Response.told_explained (hs : status ∈ statuses) (detail : String) : Told (.ok (explained status detail)) :=
  ⟨_, rfl, hs⟩

theorem Response.told_ofValue {value : Json} (h : value.gap? = none) : Told (ofValue 200 value) :=
  ⟨_, Service.ofValue_of_gap h 200, (by decide : 200 ∈ statuses)⟩

theorem Refusal.Sendable.told {refusal : Refusal} (h : refusal.Sendable) :
    Response.Told (Response.refused refusal) := by
  obtain ⟨detail, hdetail⟩ := h.refused
  exact ⟨_, hdetail, (by decide : 422 ∈ Response.statuses)⟩

end Told

namespace Task
open Response
variable {setup : Setup} {r : Record} {t : Task}

theorem told_shown (hcode : Text.gap? r.code.points = none) : Told (shown r).2 :=
  told_ofValue (by rw [Payload.gap_ofRecord, hcode])

/-- What comes of a session in use is told by a status. -/
theorem perform_told (hi : ∀ v ∈ setup.input, ∃ n, v = .integer n) (h : Session.InUse setup r.session)
    (hcode : Text.gap? r.code.points = none) (hbound : ∀ n, t.bound = some n → 1 ≤ n)
    (hends : (t.perform fuel r).2 ≠ .error .unfinished) : Told (t.perform fuel r).2 := by
  cases ht : t.moves with
  | true =>
    have hstride := stride_ends ht hends
    cases hu : (t.stride fuel r.session).2 with
    | ok xs =>
      rw [perform_of_moves ht, moved, hu]
      exact told_ofValue (by rw [Payload.gap_ofSteps_eq, hcode])
    | error e =>
      cases e with
      | unfinished => exact absurd hu hstride
      | fault f =>
        obtain ⟨hf, j, hinto⟩ := (stride_error_iff hi h ht hbound hstride).mp hu
        obtain ⟨r', hperform, -⟩ := perform_failed hi h ht hbound hends hf hinto
        rw [hperform]
        exact told_explained (by decide) f.message
  | false =>
    cases t with
    | view => exact told_shown hcode
    | delete => exact ⟨_, rfl, by decide⟩
    | reset => exact told_shown (r := { r with session := r.session.clearBreakpoints.restart }) hcode
    | step count => cases ht
    | run limit ignore => cases ht
    | add p => exact told_shown (r := { r with session := r.session.addBreakpoint p }) hcode
    | remove p =>
      obtain hremove | ⟨detail, hremove⟩ := perform_remove fuel r p
      · rw [hremove]
        exact told_shown (r := { r with session := (r.session.call (.remove p)).1 }) hcode
      · rw [hremove]
        exact told_explained (by decide) detail

end Task

namespace Service
open Response
variable {v : Service} {response : Response}

section Unchanged

theorem conclude_status {r : Record} {session : Session} {ending : Except Stop (List Snapshot)}
    (h : (v.conclude r session ending).2 = .ok response) : response.status = 200 ∨ response.status = 409 := by
  unfold conclude at h
  cases ending with
  | ok xs =>
    obtain ⟨rfl, -⟩ := Response.ofValue_ok h 200
    exact Or.inl rfl
  | error e =>
    cases e with
    | unfinished => cases h
    | fault f =>
      dsimp only at h
      split at h
      · obtain rfl := Except.ok.inj h
        exact Or.inr rfl
      · cases h

theorem answerWith_status {r : Record} (h : (v.answerWith r).2 = .ok response) : response.status = 200 := by
  obtain ⟨rfl, -⟩ := Response.ofValue_ok h 200
  rfl

/-- Where nothing is found or something is refused, nothing changes. -/
theorem serve_unchanged (hroute : route ≠ .sessions) (h : (v.serve fuel request route).2 = .ok response)
    (hs : response.status = 404 ∨ response.status = 422) : (v.serve fuel request route).1 = v := by
  -- a session that is put back answers with another status
  have hconclude : ∀ {r session ending}, (v.conclude r session ending).2 = .ok response →
      (v.conclude r session ending).1 = v := by
    intro r session ending hok
    have hstatus := conclude_status hok
    omega
  have hanswer : ∀ {r}, (v.answerWith r).2 = .ok response → (v.answerWith r).1 = v := by
    intro r hok
    have hstatus := answerWith_status hok
    omega
  cases route with
  | index => rfl
  | file names => rfl
  | validation =>
    simp only [serve]
    split <;> rfl
  | sessions => exact absurd rfl hroute
  | session id =>
    cases hmethod : request.method == "DELETE" with
    | true =>
      simp only [serve, hmethod, if_true] at h ⊢
      rcases hremove : v.store.remove id with ⟨store, removed⟩
      rw [hremove] at h
      cases removed with
      | false => rfl
      | true =>
        obtain rfl := Except.ok.inj h
        simp at hs
    | false =>
      simp only [serve, hmethod]
      cases v.store.get id <;> rfl
  | reset id =>
    simp only [serve] at h ⊢
    split at h
    · rfl
    · have hstatus := answerWith_status (v := v) h
      omega
  | step id =>
    simp only [serve] at h ⊢
    split at h
    · rfl
    · split at h
      · rfl
      · exact hconclude h
  | run id =>
    simp only [serve] at h ⊢
    split at h
    · rfl
    · split at h
      · rfl
      · exact hconclude h
  | breakpoints id =>
    simp only [serve] at h ⊢
    split at h
    · rfl
    · split at h
      · rfl
      · exact hanswer h
  | breakpoint id position =>
    simp only [serve] at h ⊢
    split at h
    · rfl
    · split at h
      · rfl
      · split at h
        · rfl
        · exact hanswer h

end Unchanged

section Used

/-- Every session of a service is in use, and what was typed in for it is a row of integers. -/
def Used (v : Service) : Prop :=
  ∀ id r, v.find id = some r →
    ∃ setup : Setup, (∀ x ∈ setup.input, ∃ n, x = .integer n) ∧ Session.InUse setup r.session

theorem used_vacant (fresh : ℕ → String) (room : Room) (files : Option Files) (k : ℕ) :
    (vacant fresh room files k).Used := by
  intro id r hr
  cases hr

theorem Used.answer (h : v.Used) (hv : v.store.Tidy) (fuel : ℕ) (request : Request) :
    (v.answer fuel request).1.Used := by
  intro id r hr
  obtain ⟨j, t, ht, hp⟩ | ⟨code, setup, hs, hp⟩ | hsame := answer_cases hv fuel request
  · by_cases hid : id = j
    · subst hid
      rw [hp.here] at hr
      cases hq : v.find id with
      | none =>
        rw [hq] at hr
        cases hr
      | some q =>
        rw [hq] at hr
        obtain ⟨setup, hi, hq⟩ := h id q hq
        exact ⟨setup, hi, Task.perform_inUse hq hr⟩
    · exact h id r ((hp.elsewhere id hid).symm.trans hr)
  · by_cases hid : id = v.store.nextId
    · subst hid
      obtain ⟨-, hstart⟩ := creation_begin (hp.here.symm.trans hr)
      exact ⟨setup, Request.setup_input hs, .start hstart⟩
    · exact h id r ((hp.elsewhere id hid).symm.trans hr)
  · rw [hsame] at hr
    exact h id r hr

theorem used_after {fresh : ℕ → String} (hfresh : Function.Injective fresh) (room : Room) (files : Option Files)
    (requests : List Request) : ((vacant fresh room files 0).after fuel requests).Used := by
  have hkeep : ∀ (w : Service) request, w.Sound fresh room files ∧ w.Used →
      (w.answer fuel request).1.Sound fresh room files ∧ (w.answer fuel request).1.Used :=
    fun w request h => ⟨h.1.answer fuel request, h.2.answer h.1.tidy fuel request⟩
  exact (Calls.after_induction hkeep ⟨sound_vacant hfresh room files 0, used_vacant fresh room files 0⟩ requests).2

end Used

section Told

theorem told_serveFile (request : Request) (files : Files) (names : List String) :
    Told (.ok (serveFile request files names)) := by
  unfold serveFile
  split
  · exact told_explained (by decide) _
  · split
    · exact ⟨_, rfl, (by decide : 200 ∈ statuses)⟩
    · exact told_explained (by decide) _

theorem told_serveIndex {files : Files}
    (h : ∀ path, fileContent files ["index.html"] ≠ .error (.isADirectory path)) : Told (serveIndex files) := by
  unfold serveIndex
  split
  · exact ⟨_, rfl, (by decide : 200 ∈ statuses)⟩
  · next path hpath => exact absurd hpath (h path)
  · exact told_explained (by decide) _

theorem told_ofProgram (p : Program) : Told (ofValue 200 (Payload.ofProgram p)) := by
  cases hv : p.validate with
  | ok u => exact ⟨_, ofProgram_ok hv, (by decide : 200 ∈ statuses)⟩
  | error f => exact ⟨_, ofProgram_error hv, (by decide : 200 ∈ statuses)⟩

/-- What an answer shows can be sent: the index is no directory if it is asked for, and the code of a session that the
request names is unbroken. -/
structure Presentable (v : Service) (request : Request) : Prop where
  index : request.route? v.files.isSome = some .index →
    ∀ path, fileContent (v.files.getD .none) ["index.html"] ≠ .error (.isADirectory path)
  code : ∀ id r, request.names v.files.isSome id = true → v.find id = some r → Text.gap? r.code.points = none

/-- How a service answers a request that is not for a new session: with one of the statuses, and if nothing is found
or something is refused, nothing changes. -/
structure Reports (fuel : ℕ) (v : Service) (request : Request) : Prop where
  told : Told (v.answer fuel request).2
  unchanged : ∀ response, (v.answer fuel request).2 = .ok response →
    response.status = 404 ∨ response.status = 422 → (v.answer fuel request).1 = v

theorem told_task (hv : v.store.Tidy) (hused : v.Used) (hp : v.Presentable request) {t : Task}
    (ht : request.task? v.files.isSome = some (id, .ok t)) (hends : (v.answer fuel request).2 ≠ .error .unfinished) :
    Told (v.answer fuel request).2 := by
  have hperforms : Performs v id 0 (t.outcome fuel id (v.find id)) (v.answer fuel request) := performs_answer hv ht
  rw [hperforms.answer] at hends ⊢
  cases hr : v.find id with
  | none => exact ⟨_, rfl, by rw [Task.missing_status]; decide⟩
  | some r =>
    rw [hr] at hends
    obtain ⟨setup, hi, hr'⟩ := hused id r hr
    have hcode := hp.code id r (Request.names_iff.mpr ⟨_, ht⟩) hr
    exact Task.perform_told hi hr' hcode (Request.task_bound ht) hends

theorem reports (hv : v.store.Tidy) (hused : v.Used) (hroute : request.route? v.files.isSome = some route)
    (hother : route ≠ .sessions) (htyped : request.Typed route) (hp : v.Presentable request)
    (hends : (v.answer fuel request).2 ≠ .error .unfinished) : Reports fuel v request := by
  have hserve : v.answer fuel request = v.serve fuel request route := answer_of_route hroute
  refine ⟨?_, ?_⟩
  · cases htask : route.task? request with
    | some asked =>
      obtain ⟨id, t⟩ := asked
      cases t with
      | ok t =>
        have ht : request.task? v.files.isSome = some (id, .ok t) := by
          rw [Request.task?, hroute, Option.bind_some, htask]
        exact told_task hv hused hp ht hends
      | error refusal =>
        rw [hserve, serve_of_refused htask]
        exact (htyped.sendable htask).told
    | none =>
      rw [hserve]
      cases route with
      | index => exact told_serveIndex (hp.index hroute)
      | file names => exact told_serveFile request _ names
      | validation =>
        obtain ⟨ms, l, hms, hl⟩ := htyped
        have hcode : Body.members request.body >>= Body.code = .ok l := by
          rw [hms]
          exact Body.code_of_given hl
        simp only [serve, hcode]
        exact told_ofProgram _
      | sessions => exact absurd rfl hother
      | session j => cases htask
      | reset j => cases htask
      | step j => cases htask
      | run j => cases htask
      | breakpoints j => cases htask
      | breakpoint j position => cases htask
  · intro response hok hs
    rw [hserve] at hok ⊢
    exact serve_unchanged hother hok hs

end Told

section Examples

def sized (code : String) (size : ℕ) : Request :=
  ⟨"POST", "/api/session", s!"\x7b\"code\":\"{code}\",\"memory_size\":{size}\x7d".toUTF8.toList⟩

def readSized (request : Request) : Option (List Json.Literal × Option Json.Literal × Option Int) :=
  (Body.members request.body).toOption.map fun ms =>
    (ms.map Prod.fst, (Json.member? ms "code").bind Json.literal?, (Json.member? ms "memory_size").bind Json.integer?)

theorem exists_sentIn {l : Json.Literal} {n : Int}
    (h : readSized request = some ([.whole "code", .whole "memory_size"], some l, some n)) :
    ∃ ms, Body.members request.body = .ok ms ∧ Configuration.SentIn { code := l, size := n } ms := by
  obtain ⟨ms, hms, hread⟩ := Option.map_eq_some_iff.mp h
  obtain ⟨hnames, hrest⟩ := Prod.mk.inj hread
  obtain ⟨hcode, hsize⟩ := Prod.mk.inj hrest
  obtain ⟨x, hx, hl⟩ := Option.bind_eq_some_iff.mp hcode
  obtain ⟨y, hy, hn⟩ := Option.bind_eq_some_iff.mp hsize
  obtain rfl := Json.literal?_eq_some.mp hl
  obtain rfl := Json.integer?_eq_some.mp hn
  have habsent : ∀ {name : String}, Json.Literal.whole name ∉ ms.map Prod.fst → Json.member? ms name = none := by
    intro name hname
    refine List.lookup_eq_none_iff.mpr ?_
    intro m hm
    have hne : Json.Literal.whole name ≠ m.1 := fun heq => hname (heq ▸ List.mem_map_of_mem hm)
    simpa using hne
  rw [hnames] at habsent
  refine ⟨ms, ok_of_toOption hms, ?_⟩
  exact ⟨Or.inr hx, Or.inl ⟨habsent (by decide), rfl⟩, Or.inl ⟨habsent (by decide), rfl⟩,
    Or.inl ⟨habsent (by decide), rfl⟩, Or.inl ⟨habsent (by decide), rfl⟩, Or.inr hy,
    Or.inl ⟨habsent (by decide), rfl⟩, Or.inl ⟨habsent (by decide), rfl⟩⟩

/-- The kind of a failure that escapes instead of an answer. -/
def escaped? : Except Stop Response → Option Fault.Kind
  | .error (.fault f) => some f.kind
  | _ => none

def index : Request :=
  ⟨"GET", "/", []⟩

/-- A request for a breakpoint that says something else, which is no number. -/
def misplaced : Request :=
  ⟨"POST", "/api/session/S0/breakpoints", "\x7b\"x\":NaN\x7d".toUTF8.toList⟩

end Examples

end Service

end Api

end Brainfuck
