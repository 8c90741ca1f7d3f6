import Brainfuck.Files.Path

/-! Routes: what a path and a method ask for. -/
namespace Brainfuck.Api

/-- What paths lead to. -/
inductive Route where
  | index
  | file (names : List String)
  | validation
  | sessions
  | session (id : String)
  | reset (id : String)
  | step (id : String)
  | run (id : String)
  | breakpoints (id : String)
  | breakpoint (id position : String)
  deriving DecidableEq, Repr

namespace Route

/-- The names of files below a path, two dots leading back. -/
def settle (names : List String) : List String :=
  (names.foldl (fun above name =>
    if name == "" || name == "." then above
    else if name == ".." && !above.isEmpty && above.head? != some ".." then above.tail
    else name :: above) []).reverse

/-- The last segment of a path without a line feed at its end, which does not count behind a fixed
word. -/
def word (segment : String) : String :=
  match segment.toList.reverse with
  | '\n' :: cs => String.ofList cs.reverse
  | _ => segment

/-- The names of the file that the segments below the folder of files lead to. No line feed stands in
them but at the end, and then the folder itself counts among the names, unless a slash follows it. -/
def fileNames? (segments : List String) : Option (List String) :=
  let rest := ("/".intercalate segments).toList
  match rest.dropWhile (· != '\n') with
  | [] => some (settle segments)
  | ['\n'] => some (settle (if rest.head? == some '/' then segments else "static" :: segments))
  | _ => none

/-- What a path of some segments leads to. There is an index and there are files only if there is a
directory of them. -/
def ofSegments? (files : Bool) : List String → Option Route
  | [last] => if files && word last == "" then some index else none
  | "static" :: name :: names => if files then (fileNames? (name :: names)).map file else none
  | ["api", "program", last] => if word last == "validate" then some validation else none
  | ["api", last] => if word last == "session" then some sessions else none
  | ["api", "session", id] => if id.isEmpty then none else some (session id)
  | ["api", "session", id, last] =>
    if id.isEmpty then none
    else
      match word last with
      | "reset" => some (reset id)
      | "step" => some (step id)
      | "run" => some (run id)
      | "breakpoints" => some (breakpoints id)
      | _ => none
  | ["api", "session", id, "breakpoints", position] =>
    if id.isEmpty || position.isEmpty then none else some (breakpoint id position)
  | _ => none

def ofPath? (files : Bool) (path : String) : Option Route :=
  match Path.segments path with
  | "" :: segments => ofSegments? files segments
  | _ => none

def methods : Route → List String
  | index => ["GET"]
  | file _ => ["GET", "HEAD"]
  | validation | sessions | reset _ | step _ | run _ | breakpoints _ => ["POST"]
  | session _ => ["GET", "DELETE"]
  | breakpoint .. => ["DELETE"]

/-- The path that stands for a path which leads nowhere: without the slashes at its end or, if there
is none, with one. -/
def alternative (path : String) : String :=
  let cs := path.toList.reverse
  if cs.head? == some '/' then String.ofList (cs.dropWhile (· == '/')).reverse else path ++ "/"

end Route

end Brainfuck.Api
