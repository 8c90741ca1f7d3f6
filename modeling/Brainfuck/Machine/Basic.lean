import Brainfuck.Event
import Brainfuck.Input
import Brainfuck.Program
import Brainfuck.Sink
import Brainfuck.Tape

/-! The machine: a program at work on a tape, an input and a sink. -/
namespace Brainfuck

/-- A machine. The journal holds what happened so far, the latest last. -/
structure Machine where
  program : Program
  tape : Tape
  input : Input
  sink : Sink
  maxSteps : Option Int := none
  instructionPointer : Int := 0
  dataPointer : Int := 0
  steps : Int := 0
  journal : Array Event := #[]

namespace Machine

def start (program : Program) (tape : Tape) (input : Input) (sink : Sink) (maxSteps : Option Int) :
    Except Fault Machine :=
  match maxSteps with
  | some limit =>
    if limit < 0 then .error (.negativeLimit limit)
    else .ok { program, tape, input, sink, maxSteps }
  | none => .ok { program, tape, input, sink, maxSteps }

/-- Whether the instruction pointer has passed the last instruction. -/
def halted (m : Machine) : Bool :=
  m.program.size ≤ m.instructionPointer

def limitReached (m : Machine) : Bool :=
  match m.maxSteps with
  | some limit => limit ≤ m.steps
  | none => false

def record (m : Machine) (e : Event) : Machine :=
  { m with journal := m.journal.push e }

def current (m : Machine) : Except Fault Int :=
  m.tape.read (.integer m.dataPointer)

def store (m : Machine) (value : Datum) : Machine × Except Stop Unit :=
  match m.tape.target (.integer m.dataPointer) value with
  | .error f => (m, .error (.fault f))
  | .ok (i, v) => ({ m with tape := m.tape.set i v }, .ok ())

def update (m : Machine) (f : Tape → Int → Int) : Machine × Except Stop Unit :=
  match m.current with
  | .error e => (m, .error (.fault e))
  | .ok v =>
    let v := f m.tape v
    m.store (.integer v)

/-- Moves the data pointer around the tape. -/
def move (m : Machine) (distance : Int) : Machine :=
  { m with dataPointer := (m.dataPointer + distance) % m.tape.size }

/-- Reads the next value that fits into a cell. Other values are passed over, also where the read
fails in the end. -/
def receive (m : Machine) : Machine × Except Stop Unit :=
  let r := m.input.readWithin m.tape.minimum m.tape.maximum
  let m := { m with input := r.rest, journal := m.journal ++ (r.discarded.map Event.discarded).toArray }
  match r.outcome with
  | .error e => (m, .error e)
  | .ok v => m.store v

def send (m : Machine) : Machine × Except Stop Unit :=
  match m.current with
  | .error f => (m, .error (.fault f))
  | .ok v =>
    match Sink.accept m.sink.kind (.integer v) with
    | .error f => (m, .error (.fault f))
    | .ok n => ({ m with sink := m.sink.push n }, .ok ())

/-- Moves the instruction pointer to the matching bracket if the current cell calls for it. -/
def jumpIf (m : Machine) (d : Direction) (test : Int → Bool) : Machine × Except Stop Unit :=
  match m.current with
  | .error f => (m, .error (.fault f))
  | .ok v =>
    if test v then
      match m.program.jumpDistance m.instructionPointer d with
      | .error f => (m, .error (.fault f))
      | .ok distance => ({ m with instructionPointer := m.instructionPointer + distance }, .ok ())
    else (m, .ok ())

/-- Carries out an instruction, but for the advance to the next one. -/
def perform (m : Machine) : Instruction → Machine × Except Stop Unit
  | .right => (m.move 1, .ok ())
  | .left => (m.move (-1), .ok ())
  | .increment => m.update Tape.next
  | .decrement => m.update Tape.previous
  | .read => m.receive
  | .write => m.send
  | .loopOpen => m.jumpIf .forward (· == 0)
  | .loopClose => m.jumpIf .backward (· != 0)

/-- Carries out a token; only instructions can be carried out. -/
def dispatch (m : Machine) : Token → Machine × Except Stop Unit
  | .instruction i => m.perform i
  | .other value => (m, .error (.fault (.invalidInstruction value)))

/-- Carries out the instruction at the instruction pointer and advances. The step limit is checked
first, and a failure leaves pointers and steps alone. -/
def cycle (m : Machine) : Machine × Except Stop Instruction :=
  if m.limitReached then (m, .error (.fault .stepLimit))
  else
    match m.program.instructionAt (.integer m.instructionPointer) with
    | .error f => (m, .error (.fault f))
    | .ok i =>
      match m.perform i with
      | (m, .error e) => (m, .error e)
      | (m, .ok ()) =>
        ({ m with instructionPointer := m.instructionPointer + 1, steps := m.steps + 1 }, .ok i)

def description (m : Machine) : String :=
  let limit := (m.maxSteps.map fun n => Datum.integer n).getD .null
  s!"Machine(program={m.program.description}, memory={m.tape.description}, " ++
    s!"max_steps={limit.written}, instruction_pointer={m.instructionPointer}, " ++
    s!"data_pointer={m.dataPointer}, steps={m.steps})"

end Machine

end Brainfuck
