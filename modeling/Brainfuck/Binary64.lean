/-! Floating-point numbers of 64 bits, as far as reading, comparing and truncating them goes. -/
namespace Brainfuck

/-- A decimal number `± digits · 10 ^ exponent`. -/
structure Decimal where
  negative : Bool
  digits : Nat
  exponent : Int
  deriving DecidableEq, Repr

/-- A number that 64 bits hold; a finite one is `mantissa · 2 ^ exponent`. -/
inductive Binary64 where
  | notANumber
  | infinite (negative : Bool)
  | finite (mantissa exponent : Int)
  deriving DecidableEq, Repr

namespace Binary64

/-- The quotient rounded to the nearest whole number, a half to the even neighbour. -/
def roundHalfEven (num den : Nat) : Nat :=
  let q := num / den
  let r := 2 * (num % den)
  if den < r || (r == den && q % 2 == 1) then q + 1 else q

/-- Numerator and denominator of `num / den / 2 ^ e`. -/
def scaled (num den : Nat) (e : Int) : Nat × Nat :=
  if 0 ≤ e then (num, den * Nat.pow 2 e.toNat) else (num * Nat.pow 2 (-e).toNat, den)

/-- The nearest number to a positive fraction: 53 bits, or the bits above the least exponent. -/
def ofFraction (num den : Nat) : Binary64 :=
  let estimate : Int := (num.log2 : Int) - den.log2 - 53
  let (n, d) := scaled num den (max estimate (-1074))
  let e := max (if n / d < Nat.pow 2 53 then estimate else estimate + 1) (-1074)
  let (n, d) := scaled num den e
  let m := roundHalfEven n d
  if Nat.pow 2 1024 ≤ m * Nat.pow 2 e.toNat && 0 ≤ e then .infinite false else .finite m e

def neg : Binary64 → Binary64
  | notANumber => notANumber
  | infinite s => infinite !s
  | finite m e => finite (-m) e

/-- The number nearest to a decimal one. Beyond the bounds on the magnitude the answer is known
without computing large powers. -/
def ofDecimal (x : Decimal) : Binary64 :=
  let magnitude : Int := (Nat.toDigits 10 x.digits).length + x.exponent
  let y : Binary64 :=
    if x.digits = 0 || magnitude < -330 then .finite 0 0
    else if 310 < magnitude then .infinite false
    else if 0 ≤ x.exponent then ofFraction (x.digits * Nat.pow 10 x.exponent.toNat) 1
    else ofFraction x.digits (Nat.pow 10 (-x.exponent).toNat)
  if x.negative then y.neg else y

def leInt (x : Binary64) (n : Int) : Bool :=
  match x with
  | notANumber => false
  | infinite negative => negative
  | finite m e => if 0 ≤ e then m * Nat.pow 2 e.toNat ≤ n else m ≤ n * Nat.pow 2 (-e).toNat

def geInt (x : Binary64) (n : Int) : Bool :=
  match x with
  | notANumber => false
  | infinite negative => !negative
  | finite m e => if 0 ≤ e then n ≤ m * Nat.pow 2 e.toNat else n * Nat.pow 2 (-e).toNat ≤ m

def isFinite : Binary64 → Bool
  | finite .. => true
  | _ => false

def exceeds (x : Binary64) (n : Int) : Bool :=
  x.geInt n && !x.leInt n

def isBelow (x : Binary64) (n : Int) : Bool :=
  x.leInt n && !x.geInt n

def integer? : Binary64 → Option Int
  | finite m e =>
    if 0 ≤ e then some (m * Nat.pow 2 e.toNat)
    else if m % Nat.pow 2 (-e).toNat = 0 then some (m / Nat.pow 2 (-e).toNat)
    else none
  | _ => none

end Binary64

namespace Decimal

/-- The value of a run of ASCII digits behind digits already read, how many it has, and what
follows it. -/
def readDigits : Nat → Nat → List Char → Nat × Nat × List Char
  | value, count, c :: cs =>
    if c.isDigit then readDigits (10 * value + (c.toNat - 48)) (count + 1) cs
    else (value, count, c :: cs)
  | value, count, [] => (value, count, [])

/-- The exponent behind the mark `e`, which may carry a sign. -/
def readExponent : List Char → Int
  | '-' :: cs => -((readDigits 0 0 cs).1 : Int)
  | '+' :: cs => (readDigits 0 0 cs).1
  | cs => (readDigits 0 0 cs).1

/-- Reads an unsigned decimal: digits, a fraction behind a point, an exponent behind `e`. -/
def readUnsigned (negative : Bool) (cs : List Char) : Decimal :=
  let (whole, _, cs) := readDigits 0 0 cs
  let (digits, places, cs) :=
    match cs with
    | '.' :: cs => readDigits whole 0 cs
    | cs => (whole, 0, cs)
  let exponent :=
    match cs with
    | 'e' :: cs => readExponent cs
    | 'E' :: cs => readExponent cs
    | _ => 0
  ⟨negative, digits, exponent - places⟩

def read (cs : List Char) : Decimal :=
  match cs with
  | '-' :: cs => readUnsigned true cs
  | cs => readUnsigned false cs

end Decimal

/-- The number that a text names: a decimal, an infinity, or no number. -/
def Binary64.ofText (s : String) : Binary64 :=
  if s == "nan" then .notANumber
  else if s == "inf" then .infinite false
  else if s == "-inf" then .infinite true
  else .ofDecimal (.read s.toList)

end Brainfuck
