import Brainfuck.Text.Quoted

/-! The words of a command line, which quotation marks keep together and escapes keep apart from
blanks and marks. -/
namespace Brainfuck.Text.Words

inductive Defect where
  | openQuotation
  | nothingEscaped
  deriving DecidableEq, Repr

def Defect.message : Defect → String
  | .openQuotation => "No closing quotation"
  | .nothingEscaped => "No escaped character"

/-- Where in a line a reader stands; inside a word it holds the characters so far, reversed. -/
inductive Place where
  | between
  | bare (word : List Char)
  | quoted (mark : Char) (word : List Char)

def parts (c : Char) : Bool :=
  c == ' ' || c == '\t' || c == '\r' || c == '\n'

/-- The words from a place on. -/
def splitFrom : Place → List Char → Except Defect (List (List Char))
  | .between, [] => .ok []
  | .bare word, [] => .ok [word.reverse]
  | .quoted _ _, [] => .error .openQuotation
  | .quoted mark word, c :: cs =>
    if c == mark then splitFrom (.bare word) cs
    else if c == escapeMark && mark == doubleMark then
      match cs with
      | [] => .error .nothingEscaped
      | d :: ds =>
        if d == escapeMark || d == mark then splitFrom (.quoted mark (d :: word)) ds
        else splitFrom (.quoted mark (d :: c :: word)) ds
    else splitFrom (.quoted mark (c :: word)) cs
  | .between, c :: cs =>
    if parts c then splitFrom .between cs
    else if c == escapeMark then
      match cs with
      | [] => .error .nothingEscaped
      | d :: ds => splitFrom (.bare [d]) ds
    else if c == singleMark || c == doubleMark then splitFrom (.quoted c []) cs
    else splitFrom (.bare [c]) cs
  | .bare word, c :: cs =>
    if parts c then (splitFrom .between cs).map (word.reverse :: ·)
    else if c == escapeMark then
      match cs with
      | [] => .error .nothingEscaped
      | d :: ds => splitFrom (.bare (d :: word)) ds
    else if c == singleMark || c == doubleMark then splitFrom (.quoted c word) cs
    else splitFrom (.bare (c :: word)) cs

def split (line : String) : Except Defect (List String) :=
  (splitFrom .between line.toList).map (·.map String.ofList)

end Brainfuck.Text.Words
