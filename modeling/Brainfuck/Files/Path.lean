import Brainfuck.Text.Lines
import Brainfuck.Text.Utf8

/-! Paths, and the texts of the files that they lead to. -/
namespace Brainfuck

/-- A path as a sequence of names. One that begins with a slash, or with exactly two, is absolute. -/
structure Path where
  slashes : Nat
  names : List String
  deriving DecidableEq, Repr

namespace Path

/-- The segments of a text between its slashes. The first argument is what the current segment holds so
far, reversed. -/
def segmentsFrom : List Char → List Char → List (List Char)
  | segment, [] => [segment.reverse]
  | segment, '/' :: cs => segment.reverse :: segmentsFrom [] cs
  | segment, c :: cs => segmentsFrom (c :: segment) cs

def segments (s : String) : List String :=
  (segmentsFrom [] s.toList).map String.ofList

/-- Splits a path at its slashes; empty names and single dots do not count, and three or more slashes
at the start count as one. -/
def ofString (s : String) : Path :=
  let leading := (s.toList.takeWhile (· == '/')).length
  ⟨if leading = 2 then 2 else min leading 1,
    (segments s).filter fun name => name != "" && name != "."⟩

def absolute (p : Path) : Bool :=
  p.slashes != 0

/-- The path with single slashes between its names; the empty path is a single dot. -/
def toString (p : Path) : String :=
  let names := "/".intercalate p.names
  if p.absolute then String.ofList (List.replicate p.slashes '/') ++ names
  else if p.names.isEmpty then "."
  else names

end Path

inductive ReadDefect where
  | missing (path : Path)
  | notADirectory (path : Path)
  | isADirectory (path : Path)
  | nameTooLong (path : Path)
  | malformed (defect : Text.Utf8.Defect)
  deriving DecidableEq, Repr

def ReadDefect.message : ReadDefect → String
  | missing p => "[Errno 2] No such file or directory: " ++ Text.quote p.toString
  | notADirectory p => "[Errno 20] Not a directory: " ++ Text.quote p.toString
  | isADirectory p => "[Errno 21] Is a directory: " ++ Text.quote p.toString
  | nameTooLong p => "[Errno 36] File name too long: " ++ Text.quote p.toString
  | malformed d => d.message

/-- Where files are: every path leads to some bytes, or nowhere. -/
abbrev Files := Path → Except ReadDefect (List UInt8)

def Files.none : Files :=
  fun path => .error (.missing path)

/-- The text of a file, with unified line ends. -/
def Files.readText (files : Files) (path : Path) : Except ReadDefect String := do
  let content ← files path
  match Text.Utf8.decode content with
  | .ok s => return String.ofList (Text.unifyLineEnds s.toList)
  | .error d => throw (.malformed d)

end Brainfuck
