import ApiTree.Schema.OfShape
import ApiTree.Shape.OfTy
import ApiTree.Text.Cleaned

/-!
# ApiTree.Schema.Definition

The schemas of declared types.  A plain record admits undeclared members as the
model does in which it stands, so its schema is that of a place.

A property that refers to a declared type says nothing that the definition of
the type already says, if that definition is complete.
-/

namespace ApiTree

/-- What a schema says of members that are not declared. -/
def Extra.schema : Extra → Schema
  | .ignored => []
  | .allowed => [("additionalProperties", .bool true)]
  | .forbidden => [("additionalProperties", .bool false)]

namespace Catalog

/-- The title of a declared type. -/
def titleOf (c : Catalog) (i : Nat) : String :=
  match c.form i with
  | .model _ _ (some title) _ => title
  | .root t => (Note.last? (·.title) t.notes).getD (c.decl i).name
  | _ => (c.decl i).name

/-- The description that enumerations have without one of their own. -/
def usualDoc : String := "An enumeration."

/-- The description of a declared type. -/
def descriptionOf (c : Catalog) (i : Nat) : Option String :=
  let own := ((c.decl i).doc.filter (!·.isEmpty)).map cleaned
  match c.form i with
  | .root t => own.or (Note.last? (·.description) t.notes)
  | .enum .. => own.filter (· != usualDoc)
  | _ => own

/-- The schema of a property before what it repeats is taken away. -/
def propertySchema (c : Catalog) (f : FieldDecl) (default : Option Json) : Schema :=
  let s := (c.fieldShape f).schema
  match default with
  | some d => Table.put s "default" d
  | none => s

/-- The schema of a record with the given fields.  `trim` takes from the schema of
a property what it repeats, and `shown` tells which default values show. -/
def fieldsSchema (c : Catalog) (trim : Schema → Schema) (fields : List FieldDecl)
    (shown : Json → Bool) : Schema :=
  let properties := Table.ofList <| fields.map fun f =>
    (f.wireName, Json.obj (trim (c.propertySchema f (f.default.filter shown))))
  let required := (fields.filter (·.default.isNone)).map fun f => Json.str f.wireName
  [("type", .str "object"), ("properties", .obj properties)] ++
    if required.isEmpty then [] else [("required", .arr required)]

/-- The schema of a declared type, with its title, in a place where undeclared
members of records are treated as `extra` says. -/
def definitionWith (c : Catalog) (trim : Schema → Schema) (extra : Extra) (i : Nat) : Schema :=
  let body : Schema := match c.form i with
    | .model fs extra _ _ => c.fieldsSchema trim fs (fun _ => true) ++ extra.schema
    | .root t => (c.rootShape t).schema
    | .record fs =>
      c.fieldsSchema trim fs (fun
        | .arr _ | .obj _ => false
        | _ => true) ++ extra.schema
    | .enum members _ => Schema.ofMembers (members.map (·.2))
    | .opaqueClass => []
  Schema.putText (Table.put body "title" (.str (c.titleOf i))) "description"
    ((Table.find? body "description").elim (c.descriptionOf i) fun _ => none)

/-- The schema of a property without what it repeats of a complete definition that
it refers to; `extra?` gives the place of a complete definition. -/
def withoutRepeats (c : Catalog) (extra? : Use → Option Extra) (s : Schema) : Schema :=
  let use? : Option Use := match Table.find? s "$ref" with
    | some (.str ref) => (Reference.target? ref).bind Use.ofName?
    | _ => none
  match use?.bind fun u => (extra? u).map (u, ·) with
  | some (u, extra) =>
    let known := c.definitionWith id extra u.index
    s.filter fun (k, v) => k == "$ref" || !((Table.find? known k).any v.looseEq)
  | none => s

/-- The schema of a declared type in a place; `extra?` gives the places of the
definitions that are complete before it. -/
def definition (c : Catalog) (extra? : Use → Option Extra) (extra : Extra) (i : Nat) : Schema :=
  c.definitionWith (c.withoutRepeats extra?) extra i

end Catalog
end ApiTree
