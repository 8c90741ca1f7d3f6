import Brainfuck.Text.Point
import Brainfuck.Text.Utf8

/-! Texts from bytes whose encoding shows in the bytes themselves. -/
namespace Brainfuck.Text

inductive ByteOrder where
  | greatestFirst
  | leastFirst
  deriving DecidableEq, Repr

inductive Encoding where
  | utf8
  | utf16 (order : ByteOrder)
  | utf32 (order : ByteOrder)
  deriving DecidableEq, Repr

def ByteOrder.number (order : ByteOrder) (bytes : List UInt8) : Nat :=
  let bytes := match order with
    | greatestFirst => bytes
    | leastFirst => bytes.reverse
  bytes.foldl (fun n b => 256 * n + b.toNat) 0

namespace Encoding

/-- The encoding of a text that begins with characters of ASCII: it shows in where the noughts are. -/
def detect : List UInt8 → Encoding
  | a :: b :: c :: d :: _ =>
    if a == 0 then if b == 0 then utf32 .greatestFirst else utf16 .greatestFirst
    else if b == 0 then if c == 0 && d == 0 then utf32 .leastFirst else utf16 .leastFirst
    else utf8
  | [a, b] =>
    if a == 0 then utf16 .greatestFirst else if b == 0 then utf16 .leastFirst else utf8
  | _ => utf8

def pairs? (order : ByteOrder) : List UInt8 → Option (List Nat)
  | [] => some []
  | a :: b :: rest => (pairs? order rest).map (order.number [a, b] :: ·)
  | _ => none

def quadruples? (order : ByteOrder) : List UInt8 → Option (List Nat)
  | [] => some []
  | a :: b :: c :: d :: rest => (quadruples? order rest).map (order.number [a, b, c, d] :: ·)
  | _ => none

/-- The points behind a number that may be the first half of a pair. -/
def joinFrom (n : Nat) : List Nat → List (Option Point)
  | [] => [Point.ofNat? n]
  | k :: rest =>
    if isFirstHalf n && isSecondHalf k then
      some (.char (joinHalves n k)) ::
        match rest with
        | [] => []
        | m :: rest => joinFrom m rest
    else Point.ofNat? n :: joinFrom k rest

/-- The points of numbers, of which two halves may make a pair. -/
def joinPairs : List Nat → List (Option Point)
  | [] => []
  | n :: rest => joinFrom n rest

/-- The text that bytes encode; halves of surrogate pairs may stand alone. -/
def decode? (encoding : Encoding) (bytes : List UInt8) : Option (List Point) :=
  match encoding with
  | utf8 => (Utf8.decode bytes).toOption.map Point.ofString
  | utf16 order => (pairs? order bytes).bind fun ns => (joinPairs ns).mapM id
  | utf32 order => (quadruples? order bytes).bind fun ns => ns.mapM Point.ofNat?

end Encoding

/-- The text that bytes encode in the encoding that shows in them. The mark of byte order of UTF-8 does
not belong to the text. -/
def decodeDetected? (bytes : List UInt8) : Option (List Point) :=
  match bytes with
  | 0xef :: 0xbb :: 0xbf :: rest => Encoding.utf8.decode? rest
  | _ => (Encoding.detect bytes).decode? bytes

end Brainfuck.Text
