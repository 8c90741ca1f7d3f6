import Brainfuck.Text.Blank
import Brainfuck.Text.Digit

/-! Whole numbers as people type them, and as tables print them. -/
namespace Brainfuck.Text

/-- The longest numeral, in digits, that is read. -/
def maxDigits : Nat := 4300

/-- The digits of a numeral; one underscore may stand between two digits. -/
def digits? : List Char → Option (List Nat)
  | [] => none
  | [c] => (digitValue? c).map ([·])
  | c :: '_' :: rest => do
    let d ← digitValue? c
    let ds ← digits? rest
    return d :: ds
  | c :: rest => do
    let d ← digitValue? c
    let ds ← digits? rest
    return d :: ds

/-- The number that decimal digits denote, the most significant one first. -/
def ofDigits (ds : List Nat) : Nat :=
  ds.foldl (fun n d => 10 * n + d) 0

def natural? (cs : List Char) : Option Nat := do
  let ds ← digits? cs
  if ds.length ≤ maxDigits then some (ofDigits ds) else none

/-- The number that a numeral denotes, blanks around it and one sign in front being allowed. -/
def integer? (s : String) : Option Int :=
  match trim s.toList with
  | '+' :: cs => (natural? cs).map Int.ofNat
  | '-' :: cs => (natural? cs).map fun n => -Int.ofNat n
  | cs => (natural? cs).map Int.ofNat

/-- A number filled with zeros behind its sign to a least width. -/
def zeroFilled (width : Nat) (n : Int) : String :=
  let sign := if n < 0 then ['-'] else []
  let ds := Nat.toDigits 10 n.natAbs
  String.ofList (sign ++ List.replicate (width - sign.length - ds.length) '0' ++ ds)

end Brainfuck.Text
