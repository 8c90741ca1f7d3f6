import Brainfuck.Text.Case

/-! What the name of a file tells about its content. -/
namespace Brainfuck

/-- The name without its extension, and the extension with its point. Points in front of a name are no
part of an extension. -/
def splitExtension (name : List Char) : List Char × List Char :=
  let points := name.takeWhile (· == '.')
  let rest := name.dropWhile (· == '.')
  if rest.contains '.' then
    let extension := (rest.reverse.takeWhile (· != '.')).reverse
    (points ++ rest.take (rest.length - extension.length - 1), '.' :: extension)
  else (name, [])

/-- The extensions of compressed files; capitals matter. -/
def compressions : List String := [".gz", ".Z", ".bz2", ".xz", ".br"]

/-- Whether a file holds a value of the data format, compressed or not. -/
def isJsonFile (name : String) : Bool :=
  let (base, extension) := splitExtension name.toList
  let extension := if compressions.contains (String.ofList extension) then (splitExtension base).2
    else extension
  Text.lower (String.ofList extension) == ".json"

end Brainfuck
