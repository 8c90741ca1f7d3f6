import Brainfuck.Json.Basic
import Brainfuck.Text.Numeral

/-! Reading the data format, and where reading fails. -/
namespace Brainfuck.Json

/-- Why a text is no value: it is malformed at a position, or it goes beyond a bound. -/
inductive Defect where
  | malformed (position : Nat)
  | excessive
  deriving DecidableEq, Repr

/-- What is left of a text, and where it begins. -/
structure Cursor where
  position : Nat
  rest : List Text.Point

def defaultDepth : Nat := 968

def isSpace (p : Text.Point) : Bool :=
  p == .char ' ' || p == .char '\t' || p == .char '\n' || p == .char '\r'

def skip (p : Text.Point → Bool) : Nat → List Text.Point → Cursor
  | i, x :: xs => if p x then skip p (i + 1) xs else ⟨i, x :: xs⟩
  | i, [] => ⟨i, []⟩

def Cursor.skipSpaces (c : Cursor) : Cursor :=
  skip isSpace c.position c.rest

def hexValue? (c : Char) : Option Nat :=
  if '0' ≤ c ∧ c ≤ '9' then some (c.toNat - 48)
  else if 'a' ≤ c ∧ c ≤ 'f' then some (c.toNat - 87)
  else if 'A' ≤ c ∧ c ≤ 'F' then some (c.toNat - 55)
  else none

/-- The number that four hexadecimal digits write, and what follows them. At least one more point has
to follow. -/
def hexFour? : List Text.Point → Option (Nat × List Text.Point)
  | .char a :: .char b :: .char c :: .char d :: e :: rest => do
    let a ← hexValue? a
    let b ← hexValue? b
    let c ← hexValue? c
    let d ← hexValue? d
    return (((a * 16 + b) * 16 + c) * 16 + d, e :: rest)
  | _ => none

/-- The point that a number below `0x10000` stands for. -/
def unitPoint (n : Nat) : Text.Point :=
  if Text.isFirstHalf n || Text.isSecondHalf n then .half n else .char (Char.ofNat n)

def shortEscape? : Text.Point → Option Char
  | .char '\x22' => some '\x22'
  | .char '\x5c' => some '\x5c'
  | .char '/' => some '/'
  | .char 'b' => some '\x08'
  | .char 'f' => some '\x0c'
  | .char 'n' => some '\n'
  | .char 'r' => some '\r'
  | .char 't' => some '\t'
  | _ => none

/-- Reads a text literal behind its opening mark. `start` is the position of that mark, `found` holds
the points so far, the latest first. -/
def readText (start : Nat) : Nat → Nat → List Text.Point → List Text.Point →
    Except Defect (Literal × Cursor)
  | 0, _, _, _ => .error (.malformed start)
  | fuel + 1, i, found, ps =>
    match ps with
    | [] => .error (.malformed start)
    | .char '\x22' :: rest => .ok (.ofPoints found.reverse, ⟨i + 1, rest⟩)
    | .char '\x5c' :: .char 'u' :: rest =>
      match hexFour? rest with
      | none => .error (.malformed (i + 1))
      | some (n, rest) =>
        match Text.isFirstHalf n, rest with
        | true, .char '\x5c' :: .char 'u' :: more =>
          if (more.drop 4).isEmpty then readText start fuel (i + 6) (.half n :: found) rest
          else
            match hexFour? more with
            | none => .error (.malformed (i + 7))
            | some (k, after) =>
              if Text.isSecondHalf k then
                readText start fuel (i + 12) (.char (Text.joinHalves n k) :: found) after
              else readText start fuel (i + 6) (.half n :: found) rest
        | _, _ => readText start fuel (i + 6) (unitPoint n :: found) rest
    | .char '\x5c' :: p :: rest =>
      match shortEscape? p with
      | some d => readText start fuel (i + 2) (.char d :: found) rest
      | none => .error (.malformed i)
    | .char '\x5c' :: [] => .error (.malformed start)
    | p :: rest =>
      if p.toNat < 32 then .error (.malformed i) else readText start fuel (i + 1) (p :: found) rest

def readLiteral (c : Cursor) : Except Defect (Literal × Cursor) :=
  readText (c.position - 1) (c.rest.length + 1) c.position [] c.rest

def digitsOf (cs : List Char) : List Char :=
  cs.takeWhile Char.isDigit

/-- The whole part of a number with its sign; more than one digit cannot begin with a nought. -/
def wholePart? (cs : List Char) : Option (List Char) :=
  let (sign, cs) :=
    match cs with
    | '-' :: cs => (['-'], cs)
    | cs => ([], cs)
  match cs with
  | '0' :: _ => some (sign ++ ['0'])
  | cs => if (digitsOf cs).isEmpty then none else some (sign ++ digitsOf cs)

/-- The fraction at the start of a text, which is nothing unless a digit follows the point. -/
def fractionPart (cs : List Char) : List Char :=
  match cs with
  | '.' :: cs => if (digitsOf cs).isEmpty then [] else '.' :: digitsOf cs
  | _ => []

/-- The exponent at the start of a text, which is nothing unless it has a digit. -/
def exponentPart (cs : List Char) : List Char :=
  match cs with
  | c :: cs =>
    if c == 'e' || c == 'E' then
      let (sign, cs) :=
        match cs with
        | '+' :: cs => (['+'], cs)
        | '-' :: cs => (['-'], cs)
        | cs => ([], cs)
      if (digitsOf cs).isEmpty then [] else c :: (sign ++ digitsOf cs)
    else []
  | [] => []

def wholeValue (whole : List Char) : Except Defect Int :=
  let (negative, ds) :=
    match whole with
    | '-' :: ds => (true, ds)
    | ds => (false, ds)
  if Text.maxDigits < ds.length then .error .excessive
  else
    let n := Text.ofDigits (ds.map fun c => c.toNat - 48)
    .ok (if negative then -(n : Int) else n)

def isNumeric (c : Char) : Bool :=
  c.isDigit || ['+', '-', '.', 'e', 'E'].contains c

def numericOf : List Text.Point → List Char
  | .char c :: rest => if isNumeric c then c :: numericOf rest else []
  | _ => []

def readNumber (c : Cursor) : Except Defect (Json × Cursor) :=
  let cs := numericOf c.rest
  match wholePart? cs with
  | none => .error (.malformed c.position)
  | some whole =>
    let cs := cs.drop whole.length
    let fraction := fractionPart cs
    let exponent := exponentPart (cs.drop fraction.length)
    let size := whole.length + fraction.length + exponent.length
    let after : Cursor := ⟨c.position + size, c.rest.drop size⟩
    if fraction.isEmpty && exponent.isEmpty then (wholeValue whole).map fun n => (.integer n, after)
    else .ok (.real (String.ofList (whole ++ fraction ++ exponent)), after)

def words : List (String × Json) :=
  [("null", .null), ("true", .truth true), ("false", .truth false), ("NaN", .real "nan"),
    ("Infinity", .real "inf"), ("-Infinity", .real "-inf")]

def readWord? (c : Cursor) : Option (Json × Cursor) :=
  (words.find? fun (word, _) => (Text.Point.ofString word).isPrefixOf c.rest).map fun (word, value) =>
    (value, ⟨c.position + word.length, c.rest.drop word.length⟩)

/-- Passes over one given character and the spaces behind it. -/
def expect (mark : Char) (c : Cursor) : Except Defect Cursor :=
  match c.rest with
  | p :: rest =>
    if p == .char mark then .ok (Cursor.skipSpaces ⟨c.position + 1, rest⟩)
    else .error (.malformed c.position)
  | [] => .error (.malformed c.position)

mutual

/-- Reads a value, given how deep it may be. -/
def readValue : Nat → Nat → Cursor → Except Defect (Json × Cursor)
  | 0, _, c => .error (.malformed c.position)
  | fuel + 1, depth, c =>
    match c.rest with
    | .char '\x22' :: rest => (readLiteral ⟨c.position + 1, rest⟩).map fun (l, c) => (.text l, c)
    | .char '{' :: rest =>
      if depth = 0 then .error .excessive
      else
        let inner := Cursor.skipSpaces ⟨c.position + 1, rest⟩
        match inner.rest with
        | .char '}' :: rest => .ok (.object [], ⟨inner.position + 1, rest⟩)
        | _ => (readMembers fuel (depth - 1) inner).map fun (ms, c) => (.object (settled ms), c)
    | .char '[' :: rest =>
      if depth = 0 then .error .excessive
      else
        let inner := Cursor.skipSpaces ⟨c.position + 1, rest⟩
        match inner.rest with
        | .char ']' :: rest => .ok (.array [], ⟨inner.position + 1, rest⟩)
        | _ => (readItems fuel (depth - 1) inner).map fun (xs, c) => (.array xs, c)
    | _ =>
      match readWord? c with
      | some r => .ok r
      | none => readNumber c

def readItems : Nat → Nat → Cursor → Except Defect (List Json × Cursor)
  | 0, _, c => .error (.malformed c.position)
  | fuel + 1, depth, c =>
    match readValue fuel depth c with
    | .error d => .error d
    | .ok (x, c) =>
      let c := c.skipSpaces
      match c.rest with
      | .char ']' :: rest => .ok ([x], ⟨c.position + 1, rest⟩)
      | _ =>
        match expect ',' c with
        | .error d => .error d
        | .ok c => (readItems fuel depth c).map fun (xs, c) => (x :: xs, c)

def readMembers : Nat → Nat → Cursor → Except Defect (Members × Cursor)
  | 0, _, c => .error (.malformed c.position)
  | fuel + 1, depth, c =>
    match c.rest with
    | .char '\x22' :: rest =>
      match readLiteral ⟨c.position + 1, rest⟩ with
      | .error d => .error d
      | .ok (name, c) =>
        match expect ':' c.skipSpaces with
        | .error d => .error d
        | .ok c =>
          match readValue fuel depth c with
          | .error d => .error d
          | .ok (x, c) =>
            let m := (name, x)
            let c := c.skipSpaces
            match c.rest with
            | .char '}' :: rest => .ok ([m], ⟨c.position + 1, rest⟩)
            | _ =>
              match expect ',' c with
              | .error d => .error d
              | .ok c => (readMembers fuel depth c).map fun (ms, c) => (m :: ms, c)
    | _ => .error (.malformed c.position)

end

/-- Reads a text that holds one value, at most so deep, and nothing else but spaces. -/
def readWithin (depth : Nat) (ps : List Text.Point) : Except Defect Json :=
  let c := Cursor.skipSpaces ⟨0, ps⟩
  match readValue (2 * ps.length + 2) depth c with
  | .error d => .error d
  | .ok (value, c) =>
    let c := c.skipSpaces
    if c.rest.isEmpty then .ok value else .error (.malformed c.position)

def read (ps : List Text.Point) : Except Defect Json :=
  readWithin defaultDepth ps

end Brainfuck.Json
