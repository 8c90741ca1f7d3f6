import Brainfuck.Api.Service
import Brainfuck.Proofs.Fidelity
import Brainfuck.Proofs.Store

/-! The service. A request is either for one session, and then it is a task that only this session has a part
in; or it creates a session; or no session has a part in it. -/
namespace Brainfuck.Api

inductive Task where
  | view
  | delete
  | reset
  | step (count : Int)
  | run (limit : Option Int) (ignore : Bool)
  | add (p : Int)
  | remove (p : Int)

/-- The session that a route names, and what is asked of it, unless that is refused. -/
def Route.task? (request : Request) : Route → Option (String × Except Refusal Task)
  | .session id => some (id, .ok (if request.method == "DELETE" then .delete else .view))
  | .reset id => some (id, .ok .reset)
  | .step id => some (id, (Body.members request.body >>= Body.count).map .step)
  | .run id =>
    some (id, (Body.members request.body >>= Body.run).map fun (limit, ignore) => .run limit ignore)
  | .breakpoints id => some (id, (Body.members request.body >>= Body.position).map .add)
  | .breakpoint id position =>
    some (id, match Field.integerOfText position with
      | .error d => .error (.problems [⟨[.text "path", .text "pc"], d, .text position⟩])
      | .ok p => .ok (.remove p))
  | _ => none

namespace Request

/-- The route of a request, if there is one that takes its method. -/
def route? (files : Bool) (request : Request) : Option Route :=
  (Route.ofPath? files request.path).filter fun route => route.methods.contains request.method

def task? (files : Bool) (request : Request) : Option (String × Except Refusal Task) :=
  (request.route? files).bind fun route => route.task? request

/-- The code that a request sends for a new session, and the setup that it has on a host with some room. -/
def setup? (room : Room) (files : Bool) (request : Request) : Option (Json.Literal × Debugger.Setup) :=
  match request.route? files with
  | some .sessions =>
    match Body.members request.body >>= Body.setup room with
    | .ok sent => some sent
    | .error _ => none
  | _ => none

def names (files : Bool) (id : String) (request : Request) : Bool :=
  (request.task? files).any fun t => t.1 == id

variable {files : Bool} {id : String} {request : Request}

theorem names_iff : request.names files id = true ↔ ∃ t, request.task? files = some (id, t) := by
  unfold names
  cases request.task? files with
  | none => simp
  | some asked =>
    obtain ⟨j, t⟩ := asked
    simp

end Request

namespace Task

def concluded (r : Record) : Except Stop (List Snapshot) → Except Stop Response
  | .ok xs => Response.ofValue 200 (Payload.ofSteps r xs)
  | .error (.fault f) => if f.isMachine then .ok (.explained 409 f.message) else .error (.fault f)
  | .error .unfinished => .error .unfinished

def shown (r : Record) : Option Record × Except Stop Response :=
  (some r, Response.ofValue 200 (Payload.ofRecord r))

def moved (r : Record) (outcome : Debugger.Session × Except Stop (List Snapshot)) :
    Option Record × Except Stop Response :=
  let r := { r with session := outcome.1 }
  (some r, concluded r outcome.2)

/-- What a task makes of a session, if it is kept, and the answer. -/
def perform (fuel : Nat) (r : Record) : Task → Option Record × Except Stop Response
  | view => shown r
  | delete => (none, .ok ⟨204, .text ""⟩)
  | reset => shown { r with session := r.session.clearBreakpoints.restart }
  | step count => moved r (r.session.stepForward count)
  | run limit ignore => moved r (Service.runSession fuel r.session limit ignore)
  | add p => shown { r with session := r.session.addBreakpoint p }
  | remove p =>
    match r.session.removeBreakpoint p with
    | (_, false) => (some r, .ok (.explained 404 s!"Breakpoint not found at pc={p}"))
    | (session, true) => shown { r with session }

def missing (id : String) : Task → Response
  | delete => .explained 404 s!"Unknown session id: {id}"
  | _ => .unknown (.unknownSession id)

theorem missing_status (id : String) (t : Task) : (t.missing id).status = 404 := by
  cases t <;> rfl

/-- What a task makes of a session that may be there, and the answer. -/
def outcome (fuel : Nat) (id : String) (found : Option Record) (t : Task) :
    Option Record × Except Stop Response :=
  match found with
  | some r => t.perform fuel r
  | none => (none, .ok (t.missing id))

end Task

theorem exists_of_map_ok {ε α β : Type} {f : α → β} {x : Except ε α} {b : β} (h : x.map f = .ok b) :
    ∃ a, x = .ok a ∧ f a = b := by
  cases x with
  | error e => cases h
  | ok a => exact ⟨a, rfl, Except.ok.inj h⟩

theorem ok_of_toOption {ε α : Type} {x : Except ε α} {a : α} (h : x.toOption = some a) : x = .ok a := by
  cases x with
  | error e => cases h
  | ok b => exact congrArg Except.ok (Option.some.inj h)

theorem error_of_map_error {ε α β : Type} {f : α → β} {x : Except ε α} {e : ε} (h : x.map f = .error e) :
    x = .error e := by
  cases x with
  | error e' =>
    cases h
    rfl
  | ok a => cases h

/-- What the body of a request says of the task that it asks for. -/
inductive Request.Sends (request : Request) : Task → Prop where
  | view : Sends request .view
  | delete : Sends request .delete
  | reset : Sends request .reset
  | step {count : Int} (h : Body.members request.body >>= Body.count = .ok count) : Sends request (.step count)
  | run {limit : Option Int} {ignore : Bool} (h : Body.members request.body >>= Body.run = .ok (limit, ignore)) :
      Sends request (.run limit ignore)
  | add {p : Int} (h : Body.members request.body >>= Body.position = .ok p) : Sends request (.add p)
  | remove (p : Int) : Sends request (.remove p)

theorem Request.sends {files : Bool} {id : String} {request : Request} {t : Task}
    (h : request.task? files = some (id, .ok t)) : request.Sends t := by
  obtain ⟨route, -, htask⟩ := Option.bind_eq_some_iff.mp h
  cases route with
  | index => cases htask
  | file names => cases htask
  | validation => cases htask
  | sessions => cases htask
  | session j =>
    obtain ⟨-, heq⟩ := Prod.mk.inj (Option.some.inj htask)
    obtain rfl := Except.ok.inj heq
    split
    · exact .delete
    · exact .view
  | reset j =>
    obtain ⟨-, heq⟩ := Prod.mk.inj (Option.some.inj htask)
    obtain rfl := Except.ok.inj heq
    exact .reset
  | step j =>
    obtain ⟨-, hbody⟩ := Prod.mk.inj (Option.some.inj htask)
    obtain ⟨count, hcount, rfl⟩ := exists_of_map_ok hbody
    exact .step hcount
  | run j =>
    obtain ⟨-, hbody⟩ := Prod.mk.inj (Option.some.inj htask)
    obtain ⟨⟨limit, ignore⟩, hrun, rfl⟩ := exists_of_map_ok hbody
    exact .run hrun
  | breakpoints j =>
    obtain ⟨-, hbody⟩ := Prod.mk.inj (Option.some.inj htask)
    obtain ⟨p, hp, rfl⟩ := exists_of_map_ok hbody
    exact .add hp
  | breakpoint j position =>
    obtain ⟨-, heq⟩ := Prod.mk.inj (Option.some.inj htask)
    split at heq
    · cases heq
    · next p _ =>
      obtain rfl := Except.ok.inj heq
      exact .remove p

theorem exists_of_bind_ok {ε α β : Type} {x : Except ε α} {f : α → Except ε β} {b : β} (h : x >>= f = .ok b) :
    ∃ a, x = .ok a ∧ f a = .ok b := by
  cases x with
  | error e => cases h
  | ok a => exact ⟨a, rfl, h⟩

namespace Service

def find (v : Service) (id : String) : Option Record :=
  v.store.find id

/-- How a request has been answered that only one session has a part in: as the outcome for this session says,
while nothing else has changed that other requests look at, but for the names that have been drawn. -/
structure Performs (v : Service) (id : String) (drawn : Nat) (outcome : Option Record × Except Stop Response)
    (answered : Service × Except Stop Response) : Prop where
  answer : answered.2 = outcome.2
  here : answered.1.find id = outcome.1
  elsewhere : ∀ other, other ≠ id → answered.1.find other = v.find other
  created : answered.1.store.created = v.store.created + drawn
  fresh : answered.1.store.fresh = v.store.fresh
  files : answered.1.files = v.files
  room : answered.1.room = v.room

variable {v : Service} {id : String} {r q : Record} {request : Request} {route : Route} {fuel : Nat}
  {y : Except Stop Response}

/-- The session is left as it is. -/
theorem performs_same (hfind : v.find id = some r) : Performs v id 0 (some r, y) (v, y) :=
  ⟨rfl, hfind, fun _ _ => rfl, rfl, rfl, rfl, rfl⟩

/-- The session is not there. -/
theorem performs_missing (hfind : v.find id = none) : Performs v id 0 (none, y) (v, y) :=
  ⟨rfl, hfind, fun _ _ => rfl, rfl, rfl, rfl, rfl⟩

/-- The session is replaced, and something may be noted. -/
theorem performs_put {v' : Service} (hfind : v.find r.id = some q) (hstore : v'.store = v.store.put r)
    (hfiles : v'.files = v.files) (hroom : v'.room = v.room) : Performs v r.id 0 (some r, y) (v', y) := by
  constructor
  · rfl
  · show v'.store.find r.id = some r
    rw [hstore]
    exact Store.find_put_self hfind
  · intro other hother
    show v'.store.find other = v.store.find other
    rw [hstore]
    exact Store.find_put_of_ne hother
  · rw [hstore]
    rfl
  · rw [hstore]
    rfl
  · exact hfiles
  · exact hroom

theorem performs_answerWith (hfind : v.find r.id = some q) :
    Performs v r.id 0 (Task.shown r) (v.answerWith r) :=
  performs_put hfind rfl rfl rfl

theorem performs_conclude (hfind : v.find r.id = some q) (session : Debugger.Session)
    (ending : Except Stop (List Snapshot)) :
    Performs v r.id 0 (Task.moved r (session, ending)) (v.conclude r session ending) := by
  have hput : ∀ {v' : Service} {y : Except Stop Response}, v'.store = v.store.put { r with session } →
      v'.files = v.files → v'.room = v.room → Performs v r.id 0 (some { r with session }, y) (v', y) :=
    fun hstore hfiles hroom => performs_put (r := { r with session }) hfind hstore hfiles hroom
  unfold conclude Task.moved Task.concluded
  dsimp only
  cases ending with
  | ok xs => exact hput rfl rfl rfl
  | error e =>
    cases e with
    | unfinished => exact hput rfl rfl rfl
    | fault f =>
      dsimp only
      split
      · exact hput rfl rfl rfl
      · exact hput rfl rfl rfl

theorem performs_delete (request : Request) (hm : request.method = "DELETE") :
    Performs v id 0 (Task.delete.outcome fuel id (v.find id)) (v.serve fuel request (.session id)) := by
  have hdelete : (request.method == "DELETE") = true := by simp [hm]
  simp only [serve, hdelete, if_true]
  cases hfind : v.find id with
  | none =>
    rw [Store.remove_of_find_none hfind]
    exact performs_missing hfind
  | some r =>
    have hremove := v.store.find_remove id
    rw [Store.remove_of_find hfind] at hremove ⊢
    constructor
    · rfl
    · exact (hremove id).trans (if_pos rfl)
    · intro other hother
      exact (hremove other).trans (if_neg hother)
    · rfl
    · rfl
    · rfl
    · rfl

/-- A request that finds a session is answered as its task is performed on it. -/
theorem performs_of_get {t : Task} (hv : v.store.Tidy)
    {found : Record → Service × Except Stop Response}
    (hsome : ∀ r, r.id = id → v.find id = some r → Performs v id 0 (t.perform fuel r) (found r))
    (hmissing : t.missing id = .unknown (.unknownSession id)) :
    Performs v id 0 (t.outcome fuel id (v.find id))
      (match v.store.get id with
        | .error f => (v, .ok (.unknown f))
        | .ok r => found r) := by
  cases hfind : v.find id with
  | none =>
    rw [Store.get_of_find_none hfind]
    simp only [Task.outcome, hmissing]
    exact performs_missing hfind
  | some r =>
    rw [Store.get_of_find hfind]
    exact hsome r (hv.own hfind) hfind

theorem performs_reset (hv : v.store.Tidy) (request : Request) :
    Performs v id 0 (Task.reset.outcome fuel id (v.find id)) (v.serve fuel request (.reset id)) := by
  simp only [serve, Store.reset, bind, Except.bind]
  cases hfind : v.find id with
  | none =>
    rw [Store.get_of_find_none hfind]
    exact performs_missing hfind
  | some r =>
    rw [Store.get_of_find hfind]
    obtain rfl := hv.own hfind
    exact performs_put (r := { r with session := r.session.clearBreakpoints.restart }) hfind rfl rfl rfl

theorem performs_remove {p : Int} (hid : r.id = id) (hfind : v.find id = some r) :
    Performs v id 0 ((Task.remove p).perform fuel r)
      (match r.session.removeBreakpoint p with
        | (_, false) => (v, .ok (.explained 404 s!"Breakpoint not found at pc={p}"))
        | (session, true) => v.answerWith { r with session }) := by
  subst hid
  simp only [Task.perform]
  rcases r.session.removeBreakpoint p with ⟨session, b⟩
  cases b with
  | true => exact performs_answerWith (r := { r with session }) hfind
  | false => exact performs_same hfind

/-- A request for one session is answered by its task. -/
theorem performs_serve {t : Task} (hv : v.store.Tidy) (ht : route.task? request = some (id, .ok t)) :
    Performs v id 0 (t.outcome fuel id (v.find id)) (v.serve fuel request route) := by
  cases route with
  | index => cases ht
  | file names => cases ht
  | validation => cases ht
  | sessions => cases ht
  | session j =>
    obtain ⟨rfl, htask⟩ := Prod.mk.inj (Option.some.inj ht)
    obtain rfl := Except.ok.inj htask
    by_cases hm : request.method = "DELETE"
    · rw [if_pos (by simp [hm])]
      exact performs_delete request hm
    · have hview : (request.method == "DELETE") = false := by simpa using hm
      simp only [serve, hview]
      refine performs_of_get hv ?_ rfl
      intro r _ hfind
      exact performs_same hfind
  | reset j =>
    obtain ⟨rfl, htask⟩ := Prod.mk.inj (Option.some.inj ht)
    obtain rfl := Except.ok.inj htask
    exact performs_reset hv request
  | step j =>
    obtain ⟨rfl, htask⟩ := Prod.mk.inj (Option.some.inj ht)
    obtain ⟨count, hbody, rfl⟩ := exists_of_map_ok htask
    simp only [serve, hbody]
    refine performs_of_get hv ?_ rfl
    rintro r rfl hfind
    exact performs_conclude hfind _ _
  | run j =>
    obtain ⟨rfl, htask⟩ := Prod.mk.inj (Option.some.inj ht)
    obtain ⟨⟨limit, ignore⟩, hbody, rfl⟩ := exists_of_map_ok htask
    simp only [serve, hbody]
    refine performs_of_get hv ?_ rfl
    rintro r rfl hfind
    exact performs_conclude hfind _ _
  | breakpoints j =>
    obtain ⟨rfl, htask⟩ := Prod.mk.inj (Option.some.inj ht)
    obtain ⟨p, hbody, rfl⟩ := exists_of_map_ok htask
    simp only [serve, hbody]
    refine performs_of_get hv ?_ rfl
    rintro r rfl hfind
    exact performs_answerWith (r := { r with session := r.session.addBreakpoint p }) hfind
  | breakpoint j position =>
    obtain ⟨rfl, htask⟩ := Prod.mk.inj (Option.some.inj ht)
    cases hposition : Field.integerOfText position with
    | error d =>
      rw [hposition] at htask
      cases htask
    | ok p =>
      rw [hposition] at htask
      obtain rfl := Except.ok.inj htask
      simp only [serve, hposition]
      refine performs_of_get hv ?_ rfl
      intro r hid hfind
      exact performs_remove hid hfind

/-- A task that is refused leaves everything as it is, and the answer does not depend on any session. -/
theorem serve_of_refused {refusal : Refusal} (ht : route.task? request = some (id, .error refusal)) :
    v.serve fuel request route = (v, Response.refused refusal) := by
  cases route with
  | index => cases ht
  | file names => cases ht
  | validation => cases ht
  | sessions => cases ht
  | session j => cases ht
  | reset j => cases ht
  | step j =>
    obtain ⟨-, htask⟩ := Prod.mk.inj (Option.some.inj ht)
    simp only [serve, error_of_map_error htask]
  | run j =>
    obtain ⟨-, htask⟩ := Prod.mk.inj (Option.some.inj ht)
    simp only [serve, error_of_map_error htask]
  | breakpoints j =>
    obtain ⟨-, htask⟩ := Prod.mk.inj (Option.some.inj ht)
    simp only [serve, error_of_map_error htask]
  | breakpoint j position =>
    obtain ⟨-, htask⟩ := Prod.mk.inj (Option.some.inj ht)
    cases hposition : Field.integerOfText position with
    | error d =>
      rw [hposition] at htask
      obtain rfl := Except.error.inj htask
      simp only [serve, hposition]
    | ok p =>
      rw [hposition] at htask
      cases htask

def creation (id : String) (code : Json.Literal) (setup : Debugger.Setup) :
    Option Record × Except Stop Response :=
  match Debugger.Session.start setup with
  | .error f => (none, refuseStart f)
  | .ok session =>
    match DryRun.of session.initial.program setup (.ok DryRun.defaultCap) with
    | .error f => (some { id, code, session, totalSteps := 0, capped := false }, .error (.fault f))
    | .ok dry =>
      let r : Record := { id, code, session, totalSteps := dry.total, capped := dry.capped }
      (some r, Response.ofValue 201 (Payload.ofRecord r))

/-- How many names are drawn for a session that may have started. -/
def drawnFor (found : Option Record) : Nat :=
  if found.isSome then 1 else 0

theorem performs_create (hv : v.store.Tidy) (code : Json.Literal) (setup : Debugger.Setup) :
    Performs v v.store.nextId (drawnFor (creation v.store.nextId code setup).1)
      (creation v.store.nextId code setup) (v.create code setup) := by
  unfold create creation Store.create
  cases Debugger.Session.start setup with
  | error f => exact performs_missing hv.find_nextId
  | ok session =>
    simp only [bind, Except.bind, pure, Except.pure]
    let r : Record := { id := v.store.nextId, code, session, totalSteps := 0, capped := false }
    have hhere : (v.store.append r).find v.store.nextId = some r := Store.find_append_self hv r
    cases DryRun.of session.initial.program setup (.ok DryRun.defaultCap) with
    | error f =>
      constructor
      · rfl
      · exact hhere
      · intro other hother
        exact Store.find_append_of_ne r hother
      · rfl
      · rfl
      · rfl
      · rfl
    | ok dry =>
      constructor
      · rfl
      · exact Store.find_put_self hhere
      · intro other hother
        exact (Store.find_put_of_ne hother).trans (Store.find_append_of_ne r hother)
      · rfl
      · rfl
      · rfl
      · rfl

section Answer

theorem answer_of_route (h : request.route? v.files.isSome = some route) :
    v.answer fuel request = v.serve fuel request route := by
  obtain ⟨hroute, hmethod⟩ := Option.filter_eq_some_iff.mp h
  simp only [answer, hroute, hmethod, if_true]

theorem answer_of_no_route (h : request.route? v.files.isSome = none) : (v.answer fuel request).1 = v := by
  unfold answer
  split
  · next route hroute =>
    rw [Request.route?, hroute, Option.filter_some] at h
    split
    · next hmethod =>
      rw [if_pos hmethod] at h
      cases h
    · rfl
  · split <;> rfl

/-- A request for one session is answered by its task. -/
theorem performs_answer {t : Task} (hv : v.store.Tidy)
    (ht : request.task? v.files.isSome = some (id, .ok t)) :
    Performs v id 0 (t.outcome fuel id (v.find id)) (v.answer fuel request) := by
  obtain ⟨route, hroute, htask⟩ := Option.bind_eq_some_iff.mp ht
  rw [answer_of_route hroute]
  exact performs_serve hv htask

theorem answer_of_refused {refusal : Refusal} (ht : request.task? v.files.isSome = some (id, .error refusal)) :
    v.answer fuel request = (v, Response.refused refusal) := by
  obtain ⟨route, hroute, htask⟩ := Option.bind_eq_some_iff.mp ht
  rw [answer_of_route hroute]
  exact serve_of_refused htask

theorem answer_of_setup {code : Json.Literal} {setup : Debugger.Setup}
    (hs : request.setup? v.room v.files.isSome = some (code, setup)) :
    v.answer fuel request = v.create code setup := by
  unfold Request.setup? at hs
  split at hs
  · next hroute =>
    rw [answer_of_route hroute]
    simp only [serve]
    split at hs
    · next hbody =>
      obtain ⟨⟩ := hs
      simp only [hbody]
    · cases hs
  · cases hs

/-- A request that neither names a session nor creates one leaves everything as it is. -/
theorem answer_of_idle (ht : request.task? v.files.isSome = none) (hs : request.setup? v.room v.files.isSome = none) :
    (v.answer fuel request).1 = v := by
  cases hroute : request.route? v.files.isSome with
  | none => exact answer_of_no_route hroute
  | some route =>
    rw [answer_of_route hroute]
    rw [Request.task?, hroute, Option.bind_some] at ht
    cases route with
    | index => rfl
    | file names => rfl
    | validation =>
      simp only [serve]
      split <;> rfl
    | sessions =>
      simp only [Request.setup?, hroute] at hs
      simp only [serve]
      split
      · rfl
      · next hbody =>
        rw [hbody] at hs
        cases hs
    | session j => cases ht
    | reset j => cases ht
    | step j => cases ht
    | run j => cases ht
    | breakpoints j => cases ht
    | breakpoint j position => cases ht

end Answer

section Kept
open Debugger.Session

theorem runSession_sameConfiguration (fuel : Nat) (s : Debugger.Session) (limit : Option Int) (ignore : Bool) :
    SameConfiguration s (runSession fuel s limit ignore).1 := by
  unfold runSession
  split
  · have hrun := runUntilBreak_moves fuel { s with breakpoints := {}, hit := none } limit
    exact ⟨hrun.initial, hrun.reach, hrun.historyLimit⟩
  · exact (runUntilBreak_moves fuel s limit).toSameConfiguration

end Kept

end Service

/-- What no task changes of a session that it keeps. -/
structure Record.Keeps (r r' : Record) : Prop where
  id : r'.id = r.id
  code : r'.code = r.code
  totalSteps : r'.totalSteps = r.totalSteps
  capped : r'.capped = r.capped
  configuration : Debugger.Session.SameConfiguration r.session r'.session

theorem Record.Keeps.refl (r : Record) : r.Keeps r :=
  ⟨rfl, rfl, rfl, rfl, rfl, rfl, rfl⟩

theorem Record.Keeps.trans {r₁ r₂ r₃ : Record} (h : r₁.Keeps r₂) (h' : r₂.Keeps r₃) : r₁.Keeps r₃ :=
  ⟨h'.id.trans h.id, h'.code.trans h.code, h'.totalSteps.trans h.totalSteps, h'.capped.trans h.capped,
    h.configuration.trans h'.configuration⟩

/-- The session of a record may be moved on. -/
theorem Record.keeps_of_session {r : Record} {session : Debugger.Session}
    (h : Debugger.Session.SameConfiguration r.session session) : r.Keeps { r with session } :=
  ⟨rfl, rfl, rfl, rfl, h⟩

/-- Only a delete does not keep the session. -/
theorem Task.perform_keeps (fuel : Nat) (r : Record) (t : Task) :
    (∃ r', (t.perform fuel r).1 = some r' ∧ r.Keeps r') ∨ t = .delete := by
  cases t with
  | delete => exact Or.inr rfl
  | view => exact Or.inl ⟨_, rfl, .refl r⟩
  | reset => exact Or.inl ⟨_, rfl, Record.keeps_of_session ⟨rfl, rfl, rfl⟩⟩
  | step count =>
    exact Or.inl ⟨_, rfl, Record.keeps_of_session (r.session.stepForward_moves count).toSameConfiguration⟩
  | run limit ignore =>
    exact Or.inl ⟨_, rfl, Record.keeps_of_session (Service.runSession_sameConfiguration fuel _ limit ignore)⟩
  | add p => exact Or.inl ⟨_, rfl, Record.keeps_of_session ⟨rfl, rfl, rfl⟩⟩
  | remove p =>
    have hremove := r.session.call_sameConfiguration (.remove p)
    simp only [Debugger.Session.call] at hremove
    refine Or.inl ?_
    simp only [perform]
    rcases hb : r.session.removeBreakpoint p with ⟨session, b⟩
    rw [hb] at hremove
    cases b with
    | true => exact ⟨_, rfl, Record.keeps_of_session hremove⟩
    | false => exact ⟨_, rfl, .refl r⟩

namespace Service
variable {v : Service} {id : String} {r : Record} {request : Request} {fuel : Nat}

theorem outcome_id {t : Task} (h : (t.outcome fuel id (v.find id)).1 = some r) :
    ∃ q, v.find id = some q ∧ q.Keeps r := by
  cases hfind : v.find id with
  | none =>
    rw [hfind] at h
    cases h
  | some q =>
    rw [hfind] at h
    obtain ⟨r', hr', hkeeps⟩ | rfl := t.perform_keeps fuel q
    · obtain rfl := Option.some.inj (hr'.symm.trans h)
      exact ⟨q, rfl, hkeeps⟩
    · cases h

/-- A new session stands at its start and has no breakpoints. -/
theorem creation_begin {code : Json.Literal} {setup : Debugger.Setup}
    (h : (creation id code setup).1 = some r) :
    r.id = id ∧ Debugger.Session.start setup = .ok r.session := by
  unfold creation at h
  cases hs : Debugger.Session.start setup with
  | error f =>
    rw [hs] at h
    cases h
  | ok session =>
    rw [hs] at h
    dsimp only at h
    cases hdry : DryRun.of session.initial.program setup (.ok DryRun.defaultCap) with
    | error f =>
      rw [hdry] at h
      cases h
      exact ⟨rfl, rfl⟩
    | ok dry =>
      rw [hdry] at h
      cases h
      exact ⟨rfl, rfl⟩

/-- All that a request can do: it moves one session, or a new session starts, or nothing changes. -/
theorem answer_cases (hv : v.store.Tidy) (fuel : Nat) (request : Request) :
    (∃ id t, request.task? v.files.isSome = some (id, .ok t) ∧
        Performs v id 0 (t.outcome fuel id (v.find id)) (v.answer fuel request)) ∨
      (∃ code setup, request.setup? v.room v.files.isSome = some (code, setup) ∧
        Performs v v.store.nextId (drawnFor (creation v.store.nextId code setup).1)
          (creation v.store.nextId code setup) (v.answer fuel request)) ∨
      (v.answer fuel request).1 = v := by
  cases ht : request.task? v.files.isSome with
  | some asked =>
    obtain ⟨id, t⟩ := asked
    cases t with
    | error refusal => exact Or.inr (Or.inr (by rw [answer_of_refused ht]))
    | ok t => exact Or.inl ⟨id, t, rfl, performs_answer hv ht⟩
  | none =>
    cases hs : request.setup? v.room v.files.isSome with
    | none => exact Or.inr (Or.inr (answer_of_idle ht hs))
    | some sent =>
      obtain ⟨code, setup⟩ := sent
      refine Or.inr (Or.inl ⟨code, setup, rfl, ?_⟩)
      rw [answer_of_setup hs]
      exact performs_create hv code setup

theorem answer_files (hv : v.store.Tidy) (fuel : Nat) (request : Request) :
    (v.answer fuel request).1.files = v.files := by
  obtain ⟨id, t, -, h⟩ | ⟨code, setup, -, h⟩ | h := answer_cases hv fuel request
  · exact h.files
  · exact h.files
  · rw [h]

theorem answer_room (hv : v.store.Tidy) (fuel : Nat) (request : Request) :
    (v.answer fuel request).1.room = v.room := by
  obtain ⟨id, t, -, h⟩ | ⟨code, setup, -, h⟩ | h := answer_cases hv fuel request
  · exact h.room
  · exact h.room
  · rw [h]

theorem answer_fresh (hv : v.store.Tidy) (fuel : Nat) (request : Request) :
    (v.answer fuel request).1.store.fresh = v.store.fresh := by
  obtain ⟨id, t, -, h⟩ | ⟨code, setup, -, h⟩ | h := answer_cases hv fuel request
  · exact h.fresh
  · exact h.fresh
  · rw [h]

theorem created_le_answer (hv : v.store.Tidy) (fuel : Nat) (request : Request) :
    v.store.created ≤ (v.answer fuel request).1.store.created := by
  obtain ⟨id, t, -, h⟩ | ⟨code, setup, -, h⟩ | h := answer_cases hv fuel request
  · rw [h.created]
    exact Nat.le_add_right _ _
  · rw [h.created]
    exact Nat.le_add_right _ _
  · exact Nat.le_of_eq (congrArg (fun w => w.store.created) h.symm)

/-- A session that is moved or new keeps the store tidy. -/
theorem Performs.tidy {drawn : Nat} {o : Option Record × Except Stop Response}
    {a : Service × Except Stop Response} (hv : v.store.Tidy) (h : Performs v id drawn o a)
    (hown : ∀ r, o.1 = some r → r.id = id ∧ ∃ k < v.store.created + drawn, id = v.store.fresh k) :
    a.1.store.Tidy := by
  have hfind : ∀ {j r}, a.1.store.find j = some r → r.id = j ∧ ∃ k < a.1.store.created, j = a.1.store.fresh k := by
    intro j r hr
    rw [h.created, h.fresh]
    by_cases hj : j = id
    · subst hj
      exact hown r (h.here.symm.trans hr)
    · have hold : v.store.find j = some r := (h.elsewhere j hj).symm.trans hr
      obtain ⟨k, hk, hname⟩ := hv.drawn hold
      exact ⟨hv.own hold, k, by omega, hname⟩
  have hunrepeated : Function.Injective a.1.store.fresh := by
    rw [h.fresh]
    exact hv.unrepeated
  exact ⟨hunrepeated, fun hr => (hfind hr).1, fun hr => (hfind hr).2⟩

theorem answer_tidy (hv : v.store.Tidy) (fuel : Nat) (request : Request) :
    (v.answer fuel request).1.store.Tidy := by
  obtain ⟨id, t, -, h⟩ | ⟨code, setup, -, h⟩ | h := answer_cases hv fuel request
  · refine h.tidy hv ?_
    intro r hr
    obtain ⟨q, hq, hkeeps⟩ := outcome_id hr
    have hq : v.store.find id = some q := hq
    exact ⟨hkeeps.id.trans (hv.own hq), hv.drawn hq⟩
  · refine h.tidy hv ?_
    intro r hr
    obtain ⟨hid, -⟩ := creation_begin hr
    refine ⟨hid, v.store.created, ?_, rfl⟩
    rw [drawnFor, hr]
    exact Nat.lt_succ_self _
  · rw [h]
    exact hv

end Service

end Brainfuck.Api
