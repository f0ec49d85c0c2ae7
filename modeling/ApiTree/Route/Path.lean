import ApiTree.Route.Tree

/-!
# ApiTree.Route.Path

The path of a chain of qualifiers: its key, in which captures have no names,
its spelling, and the names of its captures.
-/

namespace ApiTree

/-- A part of a path key. -/
inductive PathPart where
  | literal (s : String)
  | capture
  | captureAll
deriving DecidableEq, Repr

/-- A path without the names of its captures. -/
abbrev PathKey := List PathPart

namespace Qualifier

/-- The part that a qualifier adds to the key of a path. -/
def pathPart? : Qualifier → Option PathPart
  | .segment s => some (.literal s)
  | .capture .. => some .capture
  | .captureAll .. => some .captureAll
  | _ => none

/-- The segment that a qualifier adds to the spelling of a path. -/
def pathSegment? : Qualifier → Option String
  | .segment s => some s
  | .capture name .. | .captureAll name .. => some ("\x7b" ++ name ++ "\x7d")
  | _ => none

/-- The name of a capture. -/
def captureName? : Qualifier → Option String
  | .capture name .. | .captureAll name .. => some name
  | _ => none

end Qualifier

/-- The key of the path of a chain. -/
def pathKey (qs : List Qualifier) : PathKey := qs.filterMap Qualifier.pathPart?

/-- The spelling of the path of a chain. -/
def pathDisplay (qs : List Qualifier) : String :=
  "/" ++ "/".intercalate (qs.filterMap Qualifier.pathSegment?)

/-- The names of the captures of a chain, in order. -/
def captureNames (qs : List Qualifier) : List String := qs.filterMap Qualifier.captureName?

namespace Route

/-- The key of the path of a route. -/
def key (r : Route) : PathKey := pathKey r.qualifiers

/-- The spelling of the path of a route. -/
def display (r : Route) : String := pathDisplay r.qualifiers

/-- The method and path of a route. -/
def title (r : Route) : String := r.endpoint.method.upper ++ " " ++ r.display

end Route

/-- Whether a text can fail to be read as a value of the type. -/
def Ty.decodeCanFail : Ty → Bool
  | .scalar .str => false
  | _ => true

end ApiTree
