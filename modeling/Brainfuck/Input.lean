import Brainfuck.Fault

/-! Inputs: values in a row, and what comes after the last one. -/
namespace Brainfuck

/-- Why an action has no result: it failed, or it goes on beyond any bound. -/
inductive Stop where
  | fault (cause : Fault)
  | unfinished

/-- What a read finds behind the last value. -/
inductive Ending where
  | repeats (value : Datum)
  | exhausted
  | ended

def Ending.value : Ending → Except Fault Datum
  | repeats v => .ok v
  | exhausted => .error .inputExhausted
  | ended => .error .inputEnded

structure Input where
  pending : List Datum
  ending : Ending

namespace Input

/-- The values in a row, then one value forever or, without it, nothing. -/
def ofValues (values : List Datum) (afterwards : Option Datum) : Input :=
  ⟨values, afterwards.elim .exhausted .repeats⟩

def codePoints (s : String) : List Datum :=
  s.toList.map fun c => .integer c.toNat

def pointNumbers (ps : List Text.Point) : List Datum :=
  ps.map fun p => .integer p.toNat

def octets (bytes : List UInt8) : List Datum :=
  bytes.map fun b => .integer b.toNat

def ofStream (bytes : List UInt8) : Input :=
  ⟨octets bytes, .ended⟩

def read (input : Input) : Except Fault Datum × Input :=
  match input.pending with
  | [] => (input.ending.value, input)
  | v :: rest => (.ok v, { input with pending := rest })

end Input

/-- The result of looking for a value within bounds: the value, the input behind it, and the values
passed over. -/
structure Reading where
  outcome : Except Stop Datum
  rest : Input
  discarded : List Datum

namespace Input

/-- Looks for a value between two bounds among the pending values. Behind them only a repeated
value is left; out of bounds it would be passed over forever. -/
def seek (lo hi : Int) (ending : Ending) : List Datum → Reading
  | [] =>
    match ending.value with
    | .error f => ⟨.error (.fault f), ⟨[], ending⟩, []⟩
    | .ok v =>
      match v.between? lo hi with
      | some true => ⟨.ok v, ⟨[], ending⟩, []⟩
      | some false => ⟨.error .unfinished, ⟨[], ending⟩, []⟩
      | none => ⟨.error (.fault .wrongType), ⟨[], ending⟩, []⟩
  | v :: rest =>
    match v.between? lo hi with
    | some true => ⟨.ok v, ⟨rest, ending⟩, []⟩
    | some false =>
      let r := seek lo hi ending rest
      { r with discarded := v :: r.discarded }
    | none => ⟨.error (.fault .wrongType), ⟨rest, ending⟩, []⟩

def readWithin (lo hi : Int) (input : Input) : Reading :=
  seek lo hi input.ending input.pending

end Input

end Brainfuck
