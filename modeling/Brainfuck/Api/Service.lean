import Brainfuck.Api.Body
import Brainfuck.Api.DryRun
import Brainfuck.Api.Payload
import Brainfuck.Api.Route
import Brainfuck.Files.MediaType
import Brainfuck.Json.Compact

/-! The service: requests are answered, and the store of sessions is kept. -/
namespace Brainfuck.Api

structure Request where
  method : String
  path : String
  body : List UInt8 := []

inductive Content where
  | json (value : Json)
  | text (s : String)

structure Response where
  status : Nat
  content : Content

namespace Response

def detailed (status : Nat) (detail : Json) : Response :=
  ⟨status, .json (.object [("detail", detail)])⟩

def explained (status : Nat) (detail : String) : Response :=
  detailed status (.text detail)

def notFound : Response :=
  explained 404 "Not Found"

def methodNotAllowed : Response :=
  explained 405 "Method Not Allowed"

/-- The deepest nesting in a response that quotes a request. -/
def maxDepth : Nat := 966

/-- The body has been refused. The problems quote it; what has no written form cannot be quoted. -/
def refused : Refusal → Except Stop Response
  | .unreadable => .ok (explained 400 "There was an error parsing the body")
  | .problems ps =>
    let detail := Json.array (ps.map Problem.toJson)
    let sent := Json.object [("detail", detail)]
    match sent.obstacle? maxDepth with
    | some .tooDeep => .error (.fault .tooDeep)
    | some .notFinite => .error (.fault .notFinite)
    | none =>
      match Text.gap? sent.compact with
      | some gap => .error (.fault (.unencodable gap))
      | none => .ok (detailed 422 detail)

/-- A value as a response, unless a text in it is broken. -/
def ofValue (status : Nat) (value : Json) : Except Stop Response :=
  match value.gap? with
  | some gap => .error (.fault (.unserializable gap))
  | none => .ok ⟨status, .json value⟩

def unknown (f : Fault) : Response :=
  explained 404 f.message

end Response

/-- A service: the sessions, the files, what happened so far, and the room that the host has for each
tape. -/
structure Service where
  store : Store := {}
  files : Option Files := none
  room : Room := .all
  journal : List Event := []

namespace Service

def log (v : Service) (events : List Event) : Service :=
  { v with journal := v.journal ++ events }

/-- The events of a session since an earlier state of it. -/
def eventsSince (earlier later : Debugger.Session) : List Event :=
  later.machine.journal.toList.drop earlier.machine.journal.size

/-- The answer to a request for a session that cannot start: programs and dimensions are refused, any
other failure escapes. -/
def refuseStart (f : Fault) : Except Stop Response :=
  match f.kind with
  | .invalidProgram | .invalidConfiguration => .ok (.explained 422 f.message)
  | _ => .error (.fault f)

/-- Creates a session and counts its steps. -/
def create (v : Service) (code : Json.Literal) (setup : Debugger.Setup) :
    Service × Except Stop Response :=
  match v.store.create code setup 0 false with
  | .error f => (v, refuseStart f)
  | .ok (store, record) =>
    match DryRun.of record.session.initial.program setup (.ok DryRun.defaultCap) with
    | .error f => ({ v with store }, .error (.fault f))
    | .ok dry =>
      let record := { record with totalSteps := dry.total, capped := dry.capped }
      let created := Event.sessionCreated record.id record.session.initial.program.size
      let v := { v with store := store.put record }
      (v.log (dry.events ++ [created]), Response.ofValue 201 (Payload.ofRecord record))

/-- Answers with what a session went through, or with the failure that stopped it. What it went
through is kept in both cases. -/
def conclude (v : Service) (record : Record) (session : Debugger.Session)
    (ending : Except Stop (List Snapshot)) : Service × Except Stop Response :=
  let v := v.log (eventsSince record.session session)
  let record := { record with session }
  let v := { v with store := v.store.put record }
  match ending with
  | .ok xs => (v, Response.ofValue 200 (Payload.ofSteps record xs))
  | .error (.fault f) =>
    if f.isMachine then (v.log [.sessionStopped record.id f], .ok (.explained 409 f.message))
    else (v, .error (.fault f))
  | .error .unfinished => (v, .error .unfinished)

/-- Runs a session. If breakpoints do not count they are put aside for the run, and none has been hit
afterwards. -/
def runSession (fuel : Nat) (s : Debugger.Session) (limit : Option Int) (ignore : Bool) :
    Debugger.Session × Except Stop (List Snapshot) :=
  if ignore then
    let (t, ending) := { s with breakpoints := {}, hit := none : Debugger.Session }.runUntilBreak fuel limit
    ({ t with breakpoints := s.breakpoints, hit := none }, ending)
  else s.runUntilBreak fuel limit

def answerWith (v : Service) (record : Record) : Service × Except Stop Response :=
  ({ v with store := v.store.put record }, Response.ofValue 200 (Payload.ofRecord record))

/-- The content of a file under some names. A file of the data format is sent as its value, any other
as a text. -/
def fileContent (files : Files) (names : List String) : Except ReadDefect Content := do
  let cs := Text.Utf8.decodeReplacing (← files ⟨0, names⟩)
  match isJsonFile (names.getLast?.getD ""), Json.read (cs.map .char) with
  | true, .ok value => return .json value
  | _, _ => return .text (String.ofList cs)

/-- Whether names lead away from the folder of files, as they do with a backslash in front. -/
def leadAway (names : List String) : Bool :=
  (names.head?.getD "").toList.head? == some '\x5c'

def serveFile (request : Request) (files : Files) (names : List String) : Response :=
  if leadAway names then .notFound
  else
    match fileContent files names with
    | .ok content => ⟨200, if request.method == "HEAD" then .text "" else content⟩
    | .error _ => .notFound

/-- The answer to a request for the index, which has to be a file if it is there. -/
def serveIndex (files : Files) : Except Stop Response :=
  match fileContent files ["index.html"] with
  | .ok content => .ok ⟨200, content⟩
  | .error (.isADirectory _) => .error (.fault .notAFile)
  | .error _ => .ok (.explained 404 "index.html not found")

/-- Answers a request that has found its route and its method. -/
def serve (fuel : Nat) (v : Service) (request : Request) : Route → Service × Except Stop Response
  | .index => (v, serveIndex (v.files.getD .none))
  | .file names => (v, .ok (serveFile request (v.files.getD .none) names))
  | .validation =>
    match Body.members request.body >>= Body.code with
    | .error r => (v, Response.refused r)
    | .ok code => (v, Response.ofValue 200 (Payload.ofProgram (.ofSource code.characters)))
  | .sessions =>
    match Body.members request.body >>= Body.setup v.room with
    | .error r => (v, Response.refused r)
    | .ok (code, setup) => v.create code setup
  | .session id =>
    if request.method == "DELETE" then
      match v.store.remove id with
      | (_, false) => (v, .ok (.explained 404 s!"Unknown session id: {id}"))
      | (store, true) => ({ v with store }.log [.sessionDeleted id], .ok ⟨204, .text ""⟩)
    else
      match v.store.get id with
      | .error f => (v, .ok (.unknown f))
      | .ok record => (v, Response.ofValue 200 (Payload.ofRecord record))
  | .reset id =>
    match v.store.reset id with
    | .error f => (v, .ok (.unknown f))
    | .ok (store, record) => ({ v with store }, Response.ofValue 200 (Payload.ofRecord record))
  | .step id =>
    match Body.members request.body >>= Body.count with
    | .error r => (v, Response.refused r)
    | .ok count =>
      match v.store.get id with
      | .error f => (v, .ok (.unknown f))
      | .ok record =>
        let (session, ending) := record.session.stepForward count
        v.conclude record session ending
  | .run id =>
    match Body.members request.body >>= Body.run with
    | .error r => (v, Response.refused r)
    | .ok (limit, ignore) =>
      match v.store.get id with
      | .error f => (v, .ok (.unknown f))
      | .ok record =>
        let (session, ending) := runSession fuel record.session limit ignore
        v.conclude record session ending
  | .breakpoints id =>
    match Body.members request.body >>= Body.position with
    | .error r => (v, Response.refused r)
    | .ok p =>
      match v.store.get id with
      | .error f => (v, .ok (.unknown f))
      | .ok record => v.answerWith { record with session := record.session.addBreakpoint p }
  | .breakpoint id position =>
    match Field.integerOfText position with
    | .error d => (v, Response.refused (.problems [⟨[.text "path", .text "pc"], d, .text position⟩]))
    | .ok p =>
      match v.store.get id with
      | .error f => (v, .ok (.unknown f))
      | .ok record =>
        match record.session.removeBreakpoint p with
        | (_, false) => (v, .ok (.explained 404 s!"Breakpoint not found at pc={p}"))
        | (session, true) => v.answerWith { record with session }

/-- Answers a request. A path that leads nowhere is sent to its alternative if that leads
somewhere. A run without a limit takes at most `fuel` steps. -/
def answer (fuel : Nat) (v : Service) (request : Request) : Service × Except Stop Response :=
  match Route.ofPath? v.files.isSome request.path with
  | some route =>
    if route.methods.contains request.method then v.serve fuel request route
    else (v, .ok .methodNotAllowed)
  | none =>
    if request.path != "/" && (Route.ofPath? v.files.isSome (Route.alternative request.path)).isSome then
      (v, .ok ⟨307, .text ""⟩)
    else (v, .ok .notFound)

end Service

end Brainfuck.Api
