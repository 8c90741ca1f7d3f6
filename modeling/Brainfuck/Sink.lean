import Brainfuck.Fault

/-! Sinks: where a machine writes its values. -/
namespace Brainfuck

/-- The kinds of sinks: a buffer of bytes whose content can be shown, a stream of bytes, and a row of
arbitrary integers. -/
inductive Sink.Kind where
  | buffer
  | stream
  | row
  deriving DecidableEq, Repr

/-- A sink with the values written to it. -/
structure Sink where
  kind : Sink.Kind
  written : Array Int
  deriving DecidableEq, Repr

namespace Sink

def empty (kind : Kind) : Sink :=
  ⟨kind, #[]⟩

def integerOf : Datum → Except Fault Int
  | .integer n => .ok n
  | .truth b => .ok b.toNat
  | _ => .error .wrongType

/-- The integer that a sink writes for a value. The range of a byte is checked before the type. -/
def accept (kind : Kind) (value : Datum) : Except Fault Int :=
  match kind with
  | .row => integerOf value
  | _ =>
    match value.between? 0 255 with
    | none => .error .wrongType
    | some false => .error (.notAByte value)
    | some true => integerOf value

def push (sink : Sink) (n : Int) : Sink :=
  { sink with written := sink.written.push n }

def write (sink : Sink) (value : Datum) : Except Fault Sink :=
  (accept sink.kind value).map sink.push

def text (sink : Sink) : String :=
  String.ofList (sink.written.toList.map fun n => Char.ofNat n.toNat)

/-- The text of a buffer. -/
def bufferText? (sink : Sink) : Option String :=
  if sink.kind = .buffer then some sink.text else none

end Sink

end Brainfuck
