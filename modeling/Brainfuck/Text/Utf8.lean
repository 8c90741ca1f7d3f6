import Brainfuck.Text.Quoted

/-! Texts from bytes in UTF-8. The first sequence that is not well formed is reported. -/
namespace Brainfuck.Text.Utf8

inductive Reason where
  | invalidStart
  | invalidContinuation
  | unexpectedEnd
  deriving DecidableEq, Repr

/-- A malformed sequence: its position, its first byte, its length as far as it was well formed,
and what is wrong. -/
structure Defect where
  position : Nat
  first : UInt8
  length : Nat
  reason : Reason
  deriving DecidableEq, Repr

/-- What a first byte announces: the bits it contributes, how many bytes follow it, and the
range of the next one. -/
structure Pending where
  value : Nat
  missing : Nat
  low : UInt8
  high : UInt8
  deriving DecidableEq, Repr

/-- The first bytes of sequences of two to four bytes; overlong forms, surrogates and numbers
beyond the last character are kept out by the range of the second byte. -/
def lead? (b : UInt8) : Option Pending :=
  if 0xc2 ≤ b && b ≤ 0xdf then some ⟨b.toNat - 0xc0, 1, 0x80, 0xbf⟩
  else if b == 0xe0 then some ⟨0, 2, 0xa0, 0xbf⟩
  else if b == 0xed then some ⟨0xd, 2, 0x80, 0x9f⟩
  else if 0xe1 ≤ b && b ≤ 0xef then some ⟨b.toNat - 0xe0, 2, 0x80, 0xbf⟩
  else if b == 0xf0 then some ⟨0, 3, 0x90, 0xbf⟩
  else if 0xf1 ≤ b && b ≤ 0xf3 then some ⟨b.toNat - 0xf0, 3, 0x80, 0xbf⟩
  else if b == 0xf4 then some ⟨4, 3, 0x80, 0x8f⟩
  else none

/-- An unfinished sequence: where and with which byte it began, how long it is, and what is
still to come. -/
structure Partial where
  position : Nat
  first : UInt8
  length : Nat
  rest : Pending
  deriving DecidableEq, Repr

def Partial.defect (p : Partial) (reason : Reason) : Defect :=
  ⟨p.position, p.first, p.length, reason⟩

/-- Reads on from a position, inside the given unfinished sequence if there is one. Answers the
characters that are complete, and the unfinished sequence behind them. -/
def scan : Option Partial → Nat → List UInt8 → Except Defect (List Char × Option Partial)
  | p, _, [] => .ok ([], p)
  | none, i, b :: bs =>
    if b < 0x80 then (scan none (i + 1) bs).map fun (cs, p) => (Char.ofNat b.toNat :: cs, p)
    else
      match lead? b with
      | none => .error ⟨i, b, 1, .invalidStart⟩
      | some rest => scan (some ⟨i, b, 1, rest⟩) (i + 1) bs
  | some p, i, b :: bs =>
    if p.rest.low ≤ b && b ≤ p.rest.high then
      let value := 64 * p.rest.value + (b.toNat - 0x80)
      if p.rest.missing ≤ 1 then
        (scan none (i + 1) bs).map fun (cs, p) => (Char.ofNat value :: cs, p)
      else
        scan (some { p with length := p.length + 1, rest := ⟨value, p.rest.missing - 1, 0x80, 0xbf⟩ })
          (i + 1) bs
    else .error (p.defect .invalidContinuation)

def decode (bytes : List UInt8) : Except Defect String := do
  match ← scan none 0 bytes with
  | (cs, none) => return String.ofList cs
  | (_, some p) => throw (p.defect .unexpectedEnd)

/-- The text of bytes in which a replacement character stands for each malformed sequence. -/
def decodeReplacing (bytes : List UInt8) : List Char :=
  match bytes with
  | [] => []
  | b :: bs =>
    match scan none 0 (b :: bs) with
    | .ok (cs, none) => cs
    | .ok (cs, some _) => cs ++ ['\ufffd']
    | .error d =>
      let sound := match scan none 0 ((b :: bs).take d.position) with
        | .ok (cs, _) => cs
        | .error _ => []
      sound ++ '\ufffd' :: decodeReplacing ((b :: bs).drop (max 1 (d.position + d.length)))
termination_by bytes.length
decreasing_by simp only [List.length_drop, List.length_cons]; omega

def pieceSize : Nat := 8192

/-- Reads a stream piece by piece, inside an unfinished sequence if there is one. Answers the text in
front of the piece that is not well formed, and its defect; positions are counted from the start of
the piece, an unfinished sequence in front of it included. -/
def readPieces (carried : Option Partial) (bytes : List UInt8) : List Char × Option Defect :=
  let carried := carried.map fun p => { p with position := 0 }
  match bytes with
  | [] => ([], carried.map (·.defect .unexpectedEnd))
  | b :: bs =>
    match scan carried ((carried.map Partial.length).getD 0) ((b :: bs).take pieceSize) with
    | .error d => ([], some d)
    | .ok (cs, carried) =>
      let (rest, d) := readPieces carried ((b :: bs).drop pieceSize)
      (cs ++ rest, d)
termination_by bytes.length
decreasing_by simp only [List.length_drop, List.length_cons, pieceSize]; omega

/-- What can be read of a stream, and the defect that ends the reading. -/
def decodeStream (bytes : List UInt8) : List Char × Option Defect :=
  readPieces none bytes

def Reason.message : Reason → String
  | .invalidStart => "invalid start byte"
  | .invalidContinuation => "invalid continuation byte"
  | .unexpectedEnd => "unexpected end of data"

/-- The wording of a defect; a single byte is shown, of several only the positions. -/
def Defect.message (d : Defect) : String :=
  if d.length = 1 then
    let shown := String.ofList (hexDigits 2 d.first.toNat)
    s!"'utf-8' codec can't decode byte 0x{shown} in position {d.position}: {d.reason.message}"
  else
    s!"'utf-8' codec can't decode bytes in position {d.position}-{d.position + d.length - 1}: " ++
      d.reason.message

end Brainfuck.Text.Utf8
