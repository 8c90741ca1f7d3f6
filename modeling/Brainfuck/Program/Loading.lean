import Brainfuck.Event
import Brainfuck.Program

/-! Programs from files, and the choice between a file and a text. -/
namespace Brainfuck.Program

/-- The program in a file, and the event of its loading. A path that holds the character nought
names no file at all. -/
def load (files : Files) (path : String) : Except Fault (Program × Event) :=
  if path.toList.contains '\x00' then .error .nulInPath
  else
    let p := Path.ofString path
    match files.readText p with
    | .error d => .error (.unreadable path d)
    | .ok text => .ok (ofSource text, .loaded p text.length)

/-- The program in a file or in a text, whichever of the two is given, and the events of its
loading. -/
def choose (files : Files) (file source : Option String) : Except Fault (Program × List Event) :=
  match file, source with
  | some _, some _ => .error .twoSources
  | none, none => .error .noSource
  | some path, none => (load files path).map fun (p, e) => (p, [e])
  | none, some text => .ok (ofSource text, [])

end Brainfuck.Program
