import Brainfuck.Debugger.Session
import Brainfuck.Json.Basic

/-! The store of sessions. -/
namespace Brainfuck.Api

/-- A session in the store, under its name, with its code as it was sent and the number of its
steps. -/
structure Record where
  id : String
  code : Json.Literal
  session : Debugger.Session
  totalSteps : Int
  capped : Bool

/-- The names that sessions have if nothing else is said: they are numbered. -/
def numbered (k : Nat) : String :=
  s!"S{k}"

/-- Sessions by name, how many there have been, and where names are drawn from. -/
structure Store where
  records : List (String × Record) := []
  created : Nat := 0
  fresh : Nat → String := numbered

namespace Store

def nextId (s : Store) : String :=
  s.fresh s.created

def size (s : Store) : Nat :=
  s.records.length

/-- Starts a session under a new name. Nothing changes if it cannot start. -/
def create (s : Store) (code : Json.Literal) (setup : Debugger.Setup) (totalSteps : Int)
    (capped : Bool) : Except Fault (Store × Record) := do
  let session ← Debugger.Session.start setup
  let record : Record := { id := s.nextId, code, session, totalSteps, capped }
  let records := s.records ++ [(record.id, record)]
  return ({ s with records, created := s.created + 1 }, record)

def get (s : Store) (id : String) : Except Fault Record :=
  match s.records.lookup id with
  | some record => .ok record
  | none => .error (.unknownSession id)

def put (s : Store) (record : Record) : Store :=
  { s with records := s.records.map fun (id, r) => if id == record.id then (id, record) else (id, r) }

/-- Sets a session back to its start, without breakpoints. -/
def reset (s : Store) (id : String) : Except Fault (Store × Record) := do
  let record ← s.get id
  let record := { record with session := record.session.clearBreakpoints.restart }
  return (s.put record, record)

/-- Takes a session out, and tells whether it was there. -/
def remove (s : Store) (id : String) : Store × Bool :=
  match s.records.lookup id with
  | some _ => ({ s with records := s.records.filter fun (i, _) => i != id }, true)
  | none => (s, false)

def clear (s : Store) : Store :=
  { s with records := [] }

end Store

end Brainfuck.Api
