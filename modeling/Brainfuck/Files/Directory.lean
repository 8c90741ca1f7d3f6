import Brainfuck.Files.Path

/-! A directory of files and folders. -/
namespace Brainfuck

inductive Entry where
  | file (content : List UInt8)
  | folder
  deriving DecidableEq, Repr

/-- A directory, as the paths of everything below it, the latest first. -/
structure Directory where
  entries : List (List String × Entry) := []
  deriving Repr

namespace Directory

/-- The entry under a path without dots; the directory itself is a folder. -/
def lookup (dir : Directory) (names : List String) : Option Entry :=
  if names.isEmpty then some .folder else dir.entries.lookup names

def withFoldersAbove (dir : Directory) (names : List String) : Directory :=
  (List.range names.length).foldl
    (fun dir n =>
      let above := names.take n
      if (dir.lookup above).isSome then dir else ⟨(above, .folder) :: dir.entries⟩) dir

def add (dir : Directory) (path : String) (entry : Entry) : Directory :=
  let names := (Path.ofString path).names
  ⟨(names, entry) :: (dir.withFoldersAbove names).entries⟩

/-- A place that a path has reached: below the directory, or outside of it, where nothing is
known. -/
inductive Place where
  | outside
  | below (names : List String)

def Place.parent : Place → Place
  | outside | below [] => outside
  | below names => below names.dropLast

/-- The longest name that a directory holds, in bytes. -/
def maxNameSize : Nat := 255

/-- The longest path that leads anywhere, in bytes. -/
def maxPathSize : Nat := 4095

/-- Follows names from a place; two dots lead to the folder that holds it. -/
def follow (dir : Directory) (path : Path) : Place → List String → Except ReadDefect (List UInt8)
  | _, [] => .error (.isADirectory path)
  | place, name :: rest =>
    if name == ".." then follow dir path place.parent rest
    else if maxNameSize < name.utf8ByteSize then .error (.nameTooLong path)
    else
      match place with
      | .outside => .error (.missing path)
      | .below names =>
        match dir.lookup (names ++ [name]) with
        | none => .error (.missing path)
        | some .folder => follow dir path (.below (names ++ [name])) rest
        | some (.file content) =>
          if rest.isEmpty then .ok content else .error (.notADirectory path)

def files (dir : Directory) : Files := fun path =>
  if maxPathSize < path.toString.utf8ByteSize then .error (.nameTooLong path)
  else dir.follow path (if path.absolute then .outside else .below []) path.names

end Directory

end Brainfuck
