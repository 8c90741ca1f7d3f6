import Brainfuck.Text.Printable

/-! Quoted forms of texts and byte strings, in which every character is visible. -/
namespace Brainfuck.Text

/-- The single quotation mark, which encloses a text unless it holds that mark and no double one. -/
def singleMark : Char := '\x27'

def doubleMark : Char := '\x22'

def escapeMark : Char := '\x5c'

def markFor (cs : List Char) : Char :=
  if cs.contains singleMark && !cs.contains doubleMark then doubleMark else singleMark

/-- The last `width` hexadecimal digits of a number. -/
def hexDigits : Nat → Nat → List Char
  | 0, _ => []
  | width + 1, n => hexDigits width (n / 16) ++ [Nat.digitChar (n % 16)]

/-- The escape of a character by its number, as short as the number allows. -/
def numericEscape (n : Nat) : List Char :=
  if n < 0x100 then escapeMark :: 'x' :: hexDigits 2 n
  else if n < 0x10000 then escapeMark :: 'u' :: hexDigits 4 n
  else escapeMark :: 'U' :: hexDigits 8 n

/-- A character as it stands between two marks, where `visible` says what needs no escape. -/
def escapeChar (visible : Char → Bool) (mark c : Char) : List Char :=
  if c == mark || c == escapeMark then [escapeMark, c]
  else if c == '\n' then [escapeMark, 'n']
  else if c == '\r' then [escapeMark, 'r']
  else if c == '\t' then [escapeMark, 't']
  else if visible c then [c]
  else numericEscape c.toNat

def quoteChars (visible : Char → Bool) (cs : List Char) : List Char :=
  let mark := markFor cs
  mark :: (cs.flatMap (escapeChar visible mark) ++ [mark])

/-- The quoted form of a text, in which printable characters of every script stay as they are. -/
def quote (s : String) : String :=
  String.ofList (quoteChars isPrintable s.toList)

/-- The quoted form of a byte string, in which only printable ASCII stays as it is. -/
def quoteBytes (bytes : List UInt8) : String :=
  String.ofList ('b' :: quoteChars (fun c => isPrintable c && c.toNat < 128)
    (bytes.map fun b => Char.ofNat b.toNat))

end Brainfuck.Text
