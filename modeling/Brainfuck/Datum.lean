import Brainfuck.Binary64
import Brainfuck.Text.Quoted

/-! Values of any kind, which callers hand to a tape, an input or a sink. -/
namespace Brainfuck

/-- A value. A real number keeps the text that writes it. -/
inductive Datum where
  | null
  | truth (b : Bool)
  | integer (n : Int)
  | real (text : String)
  | text (s : String)
  | bytes (bs : List UInt8)
  | list (items : List Datum)
  deriving Inhabited

namespace Datum

mutual

def written : Datum → String
  | null => "None"
  | truth true => "True"
  | truth false => "False"
  | integer n => toString n
  | real s => s
  | text s => Text.quote s
  | bytes bs => Text.quoteBytes bs
  | list items => "[" ++ commaSeparated items ++ "]"

def commaSeparated : List Datum → String
  | [] => ""
  | [x] => x.written
  | x :: y :: rest => x.written ++ ", " ++ commaSeparated (y :: rest)

end

/-- A value as running text: a text as it is, all else in its notation. -/
def plain : Datum → String
  | text s => s
  | x => x.written

/-- Whether a value lies between two bounds; none if it is not a number. A truth value counts as
nought or one. -/
def between? (lo hi : Int) : Datum → Option Bool
  | truth b => some (lo ≤ b.toNat && (b.toNat : Int) ≤ hi)
  | integer n => some (lo ≤ n && n ≤ hi)
  | real s =>
    let x := Binary64.ofText s
    some (x.geInt lo && x.leInt hi)
  | _ => none

end Datum

end Brainfuck
