import Brainfuck.Api.Store
import Brainfuck.Json.Basic

/-! Sessions as they are sent to clients. -/
namespace Brainfuck.Api.Payload

def ofText? (s : Option String) : Json :=
  (s.map fun s => Json.text s).getD .null

def ofInteger? (n : Option Int) : Json :=
  (n.map Json.integer).getD .null

def ofSnapshot (x : Snapshot) : Json :=
  .object [
    ("step", .integer x.step),
    ("pc", .integer x.position),
    ("command", ofText? x.command),
    ("pointer", .integer x.pointer),
    ("tape_start", .integer x.tapeStart),
    ("tape", .array (x.tape.map Json.integer)),
    ("output", ofText? x.output),
    ("code_length", .integer x.codeLength)]

/-- What is sent of a session in any case. -/
def common (r : Record) : Json.Members :=
  let s := r.session
  [("session_id", .text r.id),
    ("code", .text r.code),
    ("history", .array (s.history.toList.map ofSnapshot)),
    ("finished", .truth s.finished),
    ("history_size", .integer s.history.size),
    ("breakpoints", .array (s.breakpoints.positions.map Json.integer)),
    ("hit_breakpoint", ofInteger? s.hit),
    ("total_steps", .integer r.totalSteps),
    ("total_steps_capped", .truth r.capped)]

def ofRecord (r : Record) : Json :=
  .object (("instructions", .text r.session.instructions) ::
    ("state", ofSnapshot r.session.current) :: common r)

/-- A session with the states that a request went through. -/
def ofSteps (r : Record) (xs : List Snapshot) : Json :=
  .object (("states", .array (xs.map ofSnapshot)) :: common r)

def ofProgram (p : Program) : Json :=
  let (valid, reason) : Bool × Json :=
    match p.validate with
    | .ok () => (true, .null)
    | .error f => (false, .text f.message)
  .object [
    ("valid", .truth valid),
    ("instruction_count", .integer p.size),
    ("instructions", .text p.text),
    ("error", reason)]

end Brainfuck.Api.Payload
