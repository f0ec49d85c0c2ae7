import ApiTree.Command.Location
import ApiTree.Fault

/-!
# ApiTree.Command.Files

The files that a command works on: what a name leads to, and what stands in the
way of writing to it.
-/

namespace ApiTree.Command

/-- The texts of files by their tidy names. -/
abbrev Files := Table String String

/-- What a name leads to. -/
inductive Place where
  | file (text : String)
  | directory
  | nothing
deriving DecidableEq, Repr

namespace Files

/-- What is at a place. -/
def placeOf (files : Files) (place : List String) : Place :=
  let name := "/".intercalate place
  if isUpward place then .directory
  else
    match files.find? name with
    | some text => .file text
    | none =>
      if files.any fun file => (directoriesOf file.1).contains name then .directory else .nothing

/-- What some parts lead to from a place; all but the last lead through
directories. -/
def follow (files : Files) (place : List String) : List String → Place
  | [] => files.placeOf place
  | part :: parts =>
    match files.placeOf place with
    | .directory => follow files (entered place part) parts
    | _ => .nothing

/-- What a tidy name leads to. -/
def locate (files : Files) (path : String) : Place :=
  match files.find? path with
  | some text => .file text
  | none => files.follow [] (partsOf path)

/-- Whether a name is one of something that exists. -/
def exist (files : Files) (path : String) : Bool :=
  match files.locate (tidy path) with
  | .directory => path != ""
  | .file _ => path.toList.getLast? != some '/'
  | .nothing => false

/-- The most bytes of a part of a name. -/
def mostOfPart : Nat := 255

/-- The most bytes of a name. -/
def mostOfName : Nat := 4095

/-- What stands in the way of making the directories that some parts lead
through.  A file that the way ends in is in the way itself; through another one
there is no way, unless a directory before it had to be made. -/
def barrier? (files : Files) (path : String) (made : Bool) (place : List String) :
    List String → Option Fault
  | [] => none
  | part :: parts =>
    if mostOfPart < part.utf8ByteSize then some (.nameTooLong path)
    else
      let place := entered place part
      match files.placeOf place with
      | .directory => barrier? files path made place parts
      | .nothing => barrier? files path true place parts
      | .file _ =>
        some (if made || parts.isEmpty then .isAFile ("/".intercalate place) else .belowAFile path)

/-- The fault of writing to a tidy name, if it cannot be written to. -/
def obstacle? (files : Files) (path : String) : Option Fault :=
  let parts := partsOf path
  if path.toList.contains '\x00' then some .nullInName
  else if mostOfName < path.utf8ByteSize then some (.nameTooLong path)
  else
    (files.barrier? path false [] parts.dropLast).orElse fun _ =>
      if (parts.getLast?.map String.utf8ByteSize).any (mostOfPart < ·) then
        some (.nameTooLong path)
      else
        match files.placeOf (parts.foldl entered []) with
        | .directory => some (.isADirectory path)
        | _ => none

end Files
end ApiTree.Command
