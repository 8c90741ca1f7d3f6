import Brainfuck.Text.Point

/-! Values of the data format in which requests arrive. -/
namespace Brainfuck

/-- A text in the data format; one that holds half of a surrogate pair is broken. -/
inductive Json.Literal where
  | whole (s : String)
  | broken (points : List Text.Point)
  deriving DecidableEq, Repr, Inhabited

namespace Json.Literal

/-- A text without halves is whole. -/
instance : Coe String Literal :=
  ⟨whole⟩

def ofPoints (ps : List Text.Point) : Literal :=
  match ps.mapM Text.Point.char? with
  | some cs => whole (String.ofList cs)
  | none => broken ps

def points : Literal → List Text.Point
  | whole s => Text.Point.ofString s
  | broken ps => ps

/-- The characters of a text without the halves in it. -/
def characters : Literal → String
  | whole s => s
  | broken ps => String.ofList (ps.filterMap Text.Point.char?)

end Json.Literal

/-- A value. A real number keeps the text that writes it. -/
inductive Json where
  | null
  | truth (b : Bool)
  | integer (n : Int)
  | real (text : String)
  | text (l : Json.Literal)
  | array (items : List Json)
  | object (members : List (Json.Literal × Json))
  deriving Inhabited

namespace Json

abbrev Members := List (Literal × Json)

def member? (members : Members) (name : String) : Option Json :=
  members.lookup (.whole name)

/-- Puts a member among others; one of the same name gives up its place to it. -/
def place (name : Literal) (value : Json) : Members → Members
  | [] => [(name, value)]
  | (n, x) :: rest => if n = name then (name, value) :: rest else (n, x) :: place name value rest

/-- Members of which each name occurs once, where it occurred first and with the value that it had
last. -/
def settled (members : Members) : Members :=
  members.foldl (fun ms (name, value) => place name value ms) []

end Json

end Brainfuck
