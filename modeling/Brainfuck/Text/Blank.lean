/-! Blank characters, and texts without blanks at their ends. -/
namespace Brainfuck.Text

/-- The characters that Unicode lists as white space. -/
def isBlank (c : Char) : Bool :=
  let n := c.toNat
  (9 ≤ n && n ≤ 13) || n == 32 || n == 133 || n == 160 || n == 5760 ||
    (8192 ≤ n && n ≤ 8202) || n == 8232 || n == 8233 || n == 8239 || n == 8287 || n == 12288

/-- The information separators of ASCII, which end lines and fields but are no white space. -/
def isSeparator (c : Char) : Bool :=
  28 ≤ c.toNat && c.toNat ≤ 31

/-- The text without the characters of a class at its two ends. -/
def trimBy (drop : Char → Bool) (cs : List Char) : List Char :=
  ((cs.dropWhile drop).reverse.dropWhile drop).reverse

/-- The text without white space at its two ends. -/
def trim (cs : List Char) : List Char :=
  trimBy isBlank cs

/-- The text without white space and separators at its two ends. -/
def strip (cs : List Char) : List Char :=
  trimBy (fun c => isBlank c || isSeparator c) cs

end Brainfuck.Text
