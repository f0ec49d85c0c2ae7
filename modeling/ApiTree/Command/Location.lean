/-!
# ApiTree.Command.Location

The names of files: their tidy form, without empty parts and parts that stay in
place, the directories above a file, and the ending of the last part.
-/

namespace ApiTree.Command

/-- The tidy form of the name of a file. -/
def tidy (path : String) : String :=
  let parts := (path.splitOn "/").filter fun p => p != "" && p != "."
  let root :=
    if "//".toList.isPrefixOf path.toList && !"///".toList.isPrefixOf path.toList then "//"
    else if "/".toList.isPrefixOf path.toList then "/" else ""
  if root.isEmpty && parts.isEmpty then "." else root ++ "/".intercalate parts

/-- The directories above a file with a tidy name, outermost first. -/
def directoriesOf (path : String) : List String :=
  let parts := path.splitOn "/"
  (((List.range parts.length).drop 1).map fun n => "/".intercalate (parts.take n)).filter (· != "")

/-- The parts of a tidy name. -/
def partsOf (path : String) : List String := if path == "." then [] else path.splitOn "/"

/-- Where one more part leads to from a place.  The part for the directory above
takes a part away, where there is one to be taken. -/
def entered (place : List String) (part : String) : List String :=
  if part == ".." then
    match place.getLast? with
    | none | some ".." => place ++ [part]
    | some _ => place.dropLast
  else place ++ [part]

/-- The name of the same file without parts for the directory above, as far as
there is one. -/
def settled (path : String) : String := "/".intercalate ((partsOf path).foldl entered [])

/-- Whether a place is one of a directory whatever files there are: where the
program runs, the root, or a directory above. -/
def isUpward (place : List String) : Bool := place.all fun p => p == ".." || p == ""

/-- The ending of a name, from its last point on; a point at either end makes
none. -/
def ending (path : String) : String :=
  let name := (((tidy path).splitOn "/").getLastD "").toList
  let tail := (name.reverse.takeWhile (· != '.')).reverse
  if tail.isEmpty || name.length ≤ tail.length + 1 then "" else String.ofList ('.' :: tail)

end ApiTree.Command
