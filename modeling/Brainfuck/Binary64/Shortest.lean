import Brainfuck.Binary64

/-! The shortest decimals that read back as a given number. -/
namespace Brainfuck.Binary64

/-- Numerator and denominator of the magnitude of a number. -/
def fraction (mantissa exponent : Int) : Nat × Nat :=
  scaled mantissa.natAbs 1 (-exponent)

/-- Whether two numbers are the same, whatever their mantissas. -/
def same : Binary64 → Binary64 → Bool
  | finite m e, finite n f =>
    let (a, b) := fraction m e
    let (c, d) := fraction n f
    a * d == c * b
  | x, y => x == y

/-- How many decimal places are kept to find the first digit of a fraction. -/
def places : Nat := 400

/-- How many digits a positive fraction has in front of its point; noughts behind the point count as
fewer than none. -/
def wholeDigits (num den : Nat) : Int :=
  ((Nat.toDigits 10 (num * Nat.pow 10 places / den)).length : Int) - places

/-- The two neighbours of a fraction among the multiples of a power of ten, the nearer one first; of two
equally near ones the even one comes first. -/
def neighbours (num den : Nat) (exponent : Int) : List Nat :=
  let (n, d) := if 0 ≤ exponent then (num, den * Nat.pow 10 exponent.toNat)
    else (num * Nat.pow 10 (-exponent).toNat, den)
  if roundHalfEven n d = n / d then [n / d, n / d + 1] else [n / d + 1, n / d]

/-- The decimal of the fewest digits, from `count` on, that reads back as a positive fraction; `left`
bounds how many more digits are tried. -/
def shortestFrom (num den : Nat) : Nat → Nat → Decimal
  | 0, _ => ⟨false, 0, 0⟩
  | left + 1, count =>
    let exponent := wholeDigits num den - count
    let decimals := (neighbours num den exponent).map fun n => Decimal.mk false n exponent
    match decimals.find? fun x => (ofDecimal x).same (ofFraction num den) with
    | some x => x
    | none => shortestFrom num den left (count + 1)

/-- The most digits that are needed to tell two numbers apart. -/
def maxSignificant : Nat := 17

/-- The decimal of the fewest digits that reads back as a fraction; of several the nearest one. -/
def shortest (num den : Nat) : Decimal :=
  if num = 0 then ⟨false, 0, 0⟩ else shortestFrom num den maxSignificant 1

end Binary64

namespace Decimal

/-- Where the point stands behind the first digit; beyond these bounds an exponent is written. -/
def positional (exponent : Int) : Bool :=
  -4 ≤ exponent && exponent < 16

/-- Digits without the noughts at their end, and how many of these there are. -/
def dropEnd (digits : List Char) : List Char × Nat :=
  let kept := (digits.reverse.dropWhile (· == '0')).reverse
  (kept, digits.length - kept.length)

/-- Digits with a point behind the first `whole` of them; noughts fill what is missing. -/
def withPoint (digits : List Char) (whole : Int) : List Char :=
  if whole ≤ 0 then ['0', '.'] ++ List.replicate (-whole).toNat '0' ++ digits
  else
    let padded := digits ++ List.replicate (whole.toNat - digits.length) '0'
    let fraction := padded.drop whole.toNat
    padded.take whole.toNat ++ '.' :: (if fraction.isEmpty then ['0'] else fraction)

def exponentText (exponent : Int) : List Char :=
  let digits := Nat.toDigits 10 exponent.natAbs
  'e' :: (if exponent < 0 then '-' else '+') :: (List.replicate (2 - digits.length) '0' ++ digits)

def magnitudeText (x : Decimal) : List Char :=
  if x.digits = 0 then ['0', '.', '0']
  else
    let (digits, dropped) := dropEnd (Nat.toDigits 10 x.digits)
    let exponent := x.exponent + dropped + digits.length - 1
    if positional exponent then withPoint digits (exponent + 1)
    else
      match digits with
      | [d] => d :: exponentText exponent
      | d :: ds => d :: '.' :: (ds ++ exponentText exponent)
      | [] => exponentText exponent

end Decimal

/-- The shortest text that names the same number as a decimal does. -/
def Binary64.canonicalText (s : String) : String :=
  match ofText s with
  | notANumber => "NaN"
  | infinite negative => if negative then "-Infinity" else "Infinity"
  | finite m e =>
    let (num, den) := fraction m e
    let digits := (shortest num den).magnitudeText
    String.ofList (if s.toList.head? == some '-' then '-' :: digits else digits)

end Brainfuck
