import Brainfuck.Binary64.Shortest
import Brainfuck.Json.Basic

/-! Values written without spaces, and what stands in the way of writing them. -/
namespace Brainfuck.Json

/-- A point as it stands in a text. -/
def escaped (p : Text.Point) : List Text.Point :=
  match p with
  | .char '\x22' => [.char '\x5c', p]
  | .char '\x5c' => [.char '\x5c', p]
  | .char '\n' => Text.Point.ofString "\\n"
  | .char '\r' => Text.Point.ofString "\\r"
  | .char '\t' => Text.Point.ofString "\\t"
  | .char '\x08' => Text.Point.ofString "\\b"
  | .char '\x0c' => Text.Point.ofString "\\f"
  | p => if p.toNat < 32 then (Text.escapeMark :: 'u' :: Text.hexDigits 4 p.toNat).map .char else [p]

def Literal.compact (l : Literal) : List Text.Point :=
  .char '\x22' :: (l.points.flatMap escaped ++ [.char '\x22'])

def commaSeparated : List (List Text.Point) → List Text.Point
  | [] => []
  | [x] => x
  | x :: y :: rest => x ++ .char ',' :: commaSeparated (y :: rest)

mutual

/-- A value without spaces. -/
def compact : Json → List Text.Point
  | null => Text.Point.ofString "null"
  | truth b => Text.Point.ofString (if b then "true" else "false")
  | integer n => Text.Point.ofString (toString n)
  | real s => Text.Point.ofString (Binary64.canonicalText s)
  | text l => l.compact
  | array items => .char '[' :: (commaSeparated (compactItems items) ++ [.char ']'])
  | object members =>
    .char '\x7b' :: (commaSeparated (compactMembers members) ++ [.char '\x7d'])

def compactItems : List Json → List (List Text.Point)
  | [] => []
  | x :: rest => x.compact :: compactItems rest

def compactMembers : Members → List (List Text.Point)
  | [] => []
  | (name, x) :: rest => (name.compact ++ .char ':' :: x.compact) :: compactMembers rest

end

/-- What stands in the way of writing a value: it is nested too deep, or a number in it is not
finite. -/
inductive Obstacle where
  | tooDeep
  | notFinite
  deriving DecidableEq, Repr

mutual

/-- The first obstacle in a value, given how deep it may be. -/
def obstacle? : Nat → Json → Option Obstacle
  | _, real s => if (Binary64.ofText s).isFinite then none else some .notFinite
  | depth, array items => if depth = 0 then some .tooDeep else obstacleAmong? (depth - 1) items
  | depth, object members =>
    if depth = 0 then some .tooDeep else obstacleInMembers? (depth - 1) members
  | _, _ => none

def obstacleAmong? : Nat → List Json → Option Obstacle
  | _, [] => none
  | depth, x :: rest => x.obstacle? depth <|> obstacleAmong? depth rest

def obstacleInMembers? : Nat → Members → Option Obstacle
  | _, [] => none
  | depth, (_, x) :: rest => x.obstacle? depth <|> obstacleInMembers? depth rest

end

mutual

/-- The gap of the first broken text in a value. -/
def gap? : Json → Option Text.Gap
  | text l => Text.gap? l.points
  | array items => gapAmong? items
  | object members => gapInMembers? members
  | _ => none

def gapAmong? : List Json → Option Text.Gap
  | [] => none
  | x :: rest => x.gap? <|> gapAmong? rest

def gapInMembers? : Members → Option Text.Gap
  | [] => none
  | (name, x) :: rest => Text.gap? name.points <|> x.gap? <|> gapInMembers? rest

end

end Brainfuck.Json
