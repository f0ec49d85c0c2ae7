import ApiTree.Fault

/-!
# ApiTree.Schema.Reference

References to component schemas.  A reference is the text
`#/components/schemas/` followed by the name of a component.
-/

namespace ApiTree

/-- A schema: the members of a JSON object. -/
abbrev Schema := Json.Members

namespace Reference

/-- What every reference starts with. -/
def stem : String := "#/components/schemas/"

/-- The reference to a component. -/
def pathTo (name : String) : String := stem ++ name

/-- The component that a reference names. -/
def target? (ref : String) : Option String :=
  if stem.toList.isPrefixOf ref.toList then
    some (String.ofList (ref.toList.drop stem.length))
  else none

/-- The schema that stands for a component. -/
def schema (name : String) : Schema := [("$ref", .str (pathTo name))]

/-- Follows a reference into a table of definitions.  A text that is no
reference is reported as it is, a reference to nothing by the missing name. -/
def follow (definitions : Table String Json) (ref : String) : Except Fault Json :=
  match target? ref with
  | none => .error (.missingKey ref)
  | some name =>
    match definitions.find? name with
    | some s => .ok s
    | none => .error (.missingKey name)

mutual

/-- Whether a reference occurs in a value, at any depth. -/
def occurs (ref : String) : Json → Bool
  | .arr xs => occursInItems ref xs
  | .obj ms => occursInMembers ref ms
  | _ => false

/-- Whether a reference occurs in an item. -/
def occursInItems (ref : String) : List Json → Bool
  | [] => false
  | x :: xs => occurs ref x || occursInItems ref xs

/-- Whether a reference is a member `$ref` or occurs in a member. -/
def occursInMembers (ref : String) : List (String × Json) → Bool
  | [] => false
  | (k, v) :: ms =>
    (k == "$ref" && v.looseEq (.str ref)) || occurs ref v || occursInMembers ref ms

end

mutual

/-- The references in a value, in order. -/
def all : Json → List String
  | .arr xs => allInItems xs
  | .obj ms => allInMembers ms
  | _ => []

/-- The references in items. -/
def allInItems : List Json → List String
  | [] => []
  | x :: xs => all x ++ allInItems xs

/-- The references in members. -/
def allInMembers : List (String × Json) → List String
  | [] => []
  | (k, v) :: ms =>
    (match v with
      | .str ref => if k == "$ref" then [ref] else []
      | _ => []) ++ all v ++ allInMembers ms

end

/-- What the members of an object are: those of a schema, or parts of a discriminator, where the
texts of a mapping are references too. -/
inductive Place where
  | schema
  | discriminator
  | mapping
deriving DecidableEq, Repr

/-- The place of what stands under a name. -/
def Place.under (p : Place) (k : String) : Place :=
  if k == "discriminator" then .discriminator
  else if p = .discriminator && k == "mapping" then .mapping
  else .schema

/-- Whether a text under a name is a reference. -/
def Place.refers (p : Place) (k : String) : Bool := k == "$ref" || p = .mapping

/-- A reference to a component that `name` names anew. -/
def renamedText (name : String → Option String) (ref : String) : String :=
  ((target? ref).bind name).elim ref pathTo

mutual

/-- A value with every reference to a component that `name` names anew. -/
def renamed (name : String → Option String) (p : Place) : Json → Json
  | .arr xs => .arr (renamedItems name xs)
  | .obj ms => .obj (renamedMembers name p ms)
  | j => j

/-- Items with references renamed. -/
def renamedItems (name : String → Option String) : List Json → List Json
  | [] => []
  | x :: xs => renamed name .schema x :: renamedItems name xs

/-- Members with references renamed. -/
def renamedMembers (name : String → Option String) (p : Place) :
    List (String × Json) → List (String × Json)
  | [] => []
  | (k, v) :: ms =>
    (k, match v with
      | .str s => .str (if p.refers k then renamedText name s else s)
      | v => renamed name (p.under k) v) :: renamedMembers name p ms

end

end Reference
end ApiTree
