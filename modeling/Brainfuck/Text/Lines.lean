/-! Line ends, and the lines of a text. -/
namespace Brainfuck.Text

/-- Every line end as one line feed: a carriage return counts as one, together with a line feed
right after it. -/
def unifyLineEnds : List Char → List Char
  | [] => []
  | '\r' :: '\n' :: cs => '\n' :: unifyLineEnds cs
  | '\r' :: cs => '\n' :: unifyLineEnds cs
  | c :: cs => c :: unifyLineEnds cs

/-- The lines of a text without their line feeds; what follows the last line feed is a line
unless it is empty. The first argument is what the current line holds so far, reversed. -/
def linesFrom : List Char → List Char → List (List Char)
  | [], [] => []
  | line, [] => [line.reverse]
  | line, '\n' :: cs => line.reverse :: linesFrom [] cs
  | line, c :: cs => linesFrom (c :: line) cs

def lines (s : String) : List String :=
  (linesFrom [] (unifyLineEnds s.toList)).map String.ofList

/-- The lines of the beginning of a text that have an end there. A carriage return at the end is none
yet, since a line feed may follow it. -/
def endedLines (cs : List Char) : List String :=
  let cs := if cs.getLast? == some '\r' then cs.dropLast else cs
  let cs := unifyLineEnds cs
  let ended := cs.reverse.dropWhile (· != '\n')
  (linesFrom [] ended.reverse).map String.ofList

end Brainfuck.Text
