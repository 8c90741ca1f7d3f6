import Brainfuck.Api.Problem
import Brainfuck.Binary64
import Brainfuck.Text.Blank

/-! Fields of a request: which values count as integers, truth values and texts. -/
namespace Brainfuck.Api.Field

/-- How a text is read as an integer: it is none, it is too long, or it is one. -/
inductive Numeral where
  | invalid
  | oversized
  | value (n : Int)
  deriving DecidableEq, Repr

/-- The number of digits that are read at most. -/
def maxSize : Nat := 4300

/-- Reads digits with an optional minus sign; a nought begins no other number than nought. The length
is looked at before what follows the digits. -/
def readNumeral (cs : List Char) : Numeral :=
  let negative := cs.head? == some '-'
  let cs := if negative then cs.tail else cs
  let digits := cs.takeWhile Char.isDigit
  match digits with
  | [] => .invalid
  | '0' :: _ => if cs = ['0'] then .value 0 else .invalid
  | _ =>
    if maxSize < digits.length then .oversized
    else if digits.length < cs.length then .invalid
    else
      let n : Int := digits.foldl (fun n c => 10 * n + (c.toNat - 48)) 0
      .value (if negative then -n else n)

/-- What is behind noughts in front, which underscores may part. It begins with a digit or a minus
sign; the last nought or underscore stays in front of a point, and at the end. -/
def behindNoughts (last : Char) : List Char → Option (List Char)
  | [] => some [last]
  | c :: rest =>
    if c == '0' || c == '_' then behindNoughts c rest
    else if c.isDigit || c == '-' then some (c :: rest)
    else if c == '.' then some (last :: c :: rest)
    else none

def dropNoughts (cs : List Char) : Option (List Char) :=
  match cs with
  | '0' :: rest => behindNoughts '0' rest
  | c :: _ => if c.isDigit then some cs else none
  | [] => none

def dropSign (cs : List Char) : Option (List Char) :=
  match cs with
  | '+' :: '-' :: _ => none
  | '+' :: rest => dropNoughts rest
  | '-' :: rest => (dropNoughts rest).map ('-' :: ·)
  | cs => dropNoughts cs

def dropFraction (cs : List Char) : List Char :=
  match cs.dropWhile (· != '.') with
  | _ :: d :: rest => if (d :: rest).all (· == '0') then cs.takeWhile (· != '.') else cs
  | _ => cs

/-- The text without the underscores in it, unless one stands at an end or beside another. -/
def dropUnderscores (cs : List Char) : List Char :=
  if cs.head? == some '_' || cs.getLast? == some '_' || (cs.zip cs.tail).contains ('_', '_') then cs
  else cs.filter (· != '_')

/-- Reads a numeral in which blanks at the ends, a plus sign, noughts in front, underscores between
digits and a fraction of noughts do not matter. -/
def readLenient (cs : List Char) : Numeral :=
  match dropSign (Text.trim cs) with
  | none => .invalid
  | some cs => readNumeral (dropUnderscores (dropFraction cs))

/-- The bound on the magnitude of real numbers that count as integers. -/
def realBound : Int := Int.pow 2 63

def integerOfReal (x : Binary64) : Except Defect Int :=
  match x with
  | .notANumber | .infinite _ => .error .infinite
  | .finite .. =>
    match x.integer? with
    | none => .error .fractional
    | some n => if -realBound < n ∧ n < realBound then .ok n else .error .oversized

/-- The integer that a text is, as it stands or else read leniently. Only of a text as it stands is
it told that it is too long. -/
def integerOfText (s : String) : Except Defect Int :=
  match readNumeral s.toList with
  | .value n => .ok n
  | .oversized => .error .oversized
  | .invalid =>
    match readLenient s.toList with
    | .value n => .ok n
    | _ => .error .unreadableInteger

def integer : Json → Except Defect Int
  | .integer n => .ok n
  | .truth b => .ok b.toNat
  | .real text => integerOfReal (.ofText text)
  | .text (.whole s) => integerOfText s
  | .text (.broken _) => .error .brokenText
  | _ => .error .notAnInteger

def integerFrom (least : Int) (value : Json) : Except Defect Int := do
  let n ← integer value
  if least ≤ n then return n else throw (.tooSmall least)

def optionalIntegerFrom (least : Int) : Json → Except Defect (Option Int)
  | .null => .ok none
  | value => (integerFrom least value).map some

/-- The text of a value, which may be broken. -/
def text : Json → Except Defect Json.Literal
  | .text l => .ok l
  | _ => .error .notAText

def affirmations : List String := ["1", "on", "t", "true", "y", "yes"]

def negations : List String := ["0", "off", "f", "false", "n", "no"]

/-- The truth value that a word stands for, whatever its capitals. -/
def truthOfText (s : String) : Except Defect Bool :=
  let word := String.ofList (s.toList.map Char.toLower)
  if affirmations.contains word then .ok true
  else if negations.contains word then .ok false
  else .error .unreadableTruth

def truthOfInteger (n : Int) : Except Defect Bool :=
  if n = 0 then .ok false
  else if n = 1 then .ok true
  else if -realBound ≤ n ∧ n < realBound then .error .unreadableTruth
  else .error .notATruth

def truth : Json → Except Defect Bool
  | .truth b => .ok b
  | .text (.whole s) => truthOfText s
  | .text (.broken _) => .error .brokenText
  | .integer n => truthOfInteger n
  | .real s =>
    match integerOfReal (.ofText s) with
    | .ok n => truthOfInteger n
    | .error _ => .error .notATruth
  | _ => .error .notATruth

/-- The value of a field: a default if the field is missing, and otherwise what a reader makes of
it. -/
def optional {α : Type} (members : Json.Members) (field : String) (default : α)
    (read : Json → Except Defect α) : Except Defect α :=
  match Json.member? members field with
  | none => .ok default
  | some value => read value

def required {α : Type} (members : Json.Members) (field : String)
    (read : Json → Except Defect α) : Except Defect α :=
  match Json.member? members field with
  | none => .error .missing
  | some value => read value

def problem {α : Type} (members : Json.Members) (field : String) : Except Defect α → List Problem
  | .ok _ => []
  | .error d =>
    [⟨[.text "body", .text field], d, (Json.member? members field).getD (.object members)⟩]

end Brainfuck.Api.Field
