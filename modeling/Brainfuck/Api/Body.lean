import Brainfuck.Api.Field
import Brainfuck.Debugger.Session
import Brainfuck.Json.Reader
import Brainfuck.Text.Encoding

/-! The bodies of requests. -/
namespace Brainfuck.Api

/-- Why a body is refused: its fields have problems, or it goes beyond a bound. -/
inductive Refusal where
  | problems (ps : List Problem)
  | unreadable

namespace Body

def value (body : List UInt8) : Except Refusal Json :=
  if body.isEmpty then .error (.problems [⟨[.text "body"], .missing, .null⟩])
  else
    match (Text.decodeDetected? body).map Json.read with
    | none | some (.error .excessive) => .error .unreadable
    | some (.error (.malformed i)) =>
      .error (.problems [⟨[.text "body", .integer i], .malformed, .object []⟩])
    | some (.ok value) => .ok value

def members (body : List UInt8) : Except Refusal Json.Members := do
  match ← value body with
  | .object ms => return ms
  | x => throw (.problems [⟨[.text "body"], .notAnObject, x⟩])

/-- The value of a field, the only one that is looked at. -/
def single {α : Type} (ms : Json.Members) (field : String) (found : Except Defect α) :
    Except Refusal α :=
  found.mapError fun d => .problems (Field.problem ms field (.error d : Except Defect α))

/-- The code of a request to check it. -/
def code (ms : Json.Members) : Except Refusal Json.Literal :=
  single ms "code" (Field.optional ms "code" "" Field.text)

/-- Checks the upper bound of the cells against the lower one, or against nought if that one has a
defect. A bound that is not given is not checked. -/
def checkBounds (ms : Json.Members) (minimum maximum : Except Defect Int) :
    Except Defect Int :=
  match Json.member? ms "cell_max", maximum with
  | some _, .ok hi =>
    let lo := match minimum with
      | .ok lo => lo
      | .error _ => 0
    if hi < lo then .error .crossedBounds else .ok hi
  | _, maximum => maximum

/-- The code of a new session as it was sent, and what the session is made of on a host with some room.
All problems are reported, in the order of the fields. -/
def setup (room : Room) (ms : Json.Members) : Except Refusal (Json.Literal × Debugger.Setup) :=
  let code := Field.optional ms "code" (.whole "") Field.text
  let input := Field.optional ms "input" (.whole "") Field.text
  let reach := Field.optional ms "tape_window" 10 (Field.integerFrom 0)
  let maxSteps := Field.optional ms "max_steps" none (Field.optionalIntegerFrom 1)
  let historyLimit := Field.optional ms "history_limit" 200 (Field.integerFrom 1)
  let size := Field.optional ms "memory_size" 30000 (Field.integerFrom 1)
  let minimum := Field.optional ms "cell_min" 0 Field.integer
  let maximum := checkBounds ms minimum (Field.optional ms "cell_max" 255 Field.integer)
  match code, input, reach, maxSteps, historyLimit, size, minimum, maximum with
  | .ok code, .ok input, .ok reach, .ok maxSteps, .ok historyLimit, .ok size, .ok minimum, .ok maximum =>
    .ok (code, {
      code := code.characters
      input := Input.pointNumbers input.points
      reach
      maxSteps
      historyLimit
      size
      minimum
      maximum
      room })
  | _, _, _, _, _, _, _, _ =>
    .error (.problems (Field.problem ms "code" code ++ Field.problem ms "input" input ++
      Field.problem ms "tape_window" reach ++ Field.problem ms "max_steps" maxSteps ++
      Field.problem ms "history_limit" historyLimit ++ Field.problem ms "memory_size" size ++
      Field.problem ms "cell_min" minimum ++ Field.problem ms "cell_max" maximum))

def count (ms : Json.Members) : Except Refusal Int :=
  single ms "count" (Field.optional ms "count" 1 (Field.integerFrom 1))

/-- The limit of a run, and whether breakpoints do not count in it. -/
def run (ms : Json.Members) : Except Refusal (Option Int × Bool) :=
  let limit := Field.optional ms "limit" none (Field.optionalIntegerFrom 1)
  let ignore := Field.optional ms "ignore_breakpoints" false Field.truth
  match limit, ignore with
  | .ok limit, .ok ignore => .ok (limit, ignore)
  | _, _ =>
    .error (.problems (Field.problem ms "limit" limit ++ Field.problem ms "ignore_breakpoints" ignore))

def position (ms : Json.Members) : Except Refusal Int :=
  single ms "pc" (Field.required ms "pc" (Field.integerFrom 0))

end Body

end Brainfuck.Api
