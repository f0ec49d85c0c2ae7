import ApiTree.Schema.Reference
import ApiTree.Ty.Basic

/-!
# ApiTree.Schema.Basic

Schemas made of schemas.  Nullability is written beside a schema, around a
reference; fixed values are enumerations; equal members of a union are one.
-/

namespace ApiTree

/-- A number as a value. -/
def Number.toJson : Number → Json
  | .int n => .int n
  | .float x => .float x

namespace Schema

/-- Writes a text under a keyword, if there is one. -/
def putText (s : Schema) (keyword : String) (text : Option String) : Schema :=
  match text with
  | some x => Table.put s keyword (.str x)
  | none => s

/-- Writes a number under a keyword, if there is one. -/
def putNumber (s : Schema) (keyword : String) (n : Option Number) : Schema :=
  match n with
  | some n => Table.put s keyword n.toJson
  | none => s

/-- The schema of the values of one JSON type. -/
def ofType (name : String) : Schema := [("type", .str name)]

/-- The schema of values and null. -/
def nullable (s : Schema) : Schema :=
  if Table.has s "$ref" then [("allOf", .arr [.obj s]), ("nullable", .bool true)]
  else Table.put s "nullable" (.bool true)

/-- The JSON type of a value. -/
def typeOf? : Json → Option String
  | .str _ => some "string"
  | .int _ => some "integer"
  | .float _ => some "number"
  | .bool _ => some "boolean"
  | .arr _ => some "array"
  | .null => some "null"
  | .obj _ => none

/-- The JSON type that all the values share, by the word for their kind. -/
def sharedType? : List Json → Option String
  | [] => none
  | v :: vs => if vs.all (·.kind == v.kind) then typeOf? v else none

/-- The schema of some fixed values. -/
def ofValues (values : List Json) : Schema :=
  putText [("enum", .arr values)] "type" (sharedType? values)

/-- The schema of the members of an enumeration, which has no type for null. -/
def ofMembers (values : List Json) : Schema :=
  putText [("enum", .arr values)] "type" ((sharedType? values).filter (· != "null"))

/-- The alternatives that a schema stands for inside a union. -/
def alternatives : Schema → List Json
  | [("anyOf", .arr xs)] => xs
  | s => [.obj s]

/-- Of equal schemas the last, in the place of the first. -/
def latest (schemas : List Json) : List Json :=
  schemas.foldl (fun kept s =>
    if kept.any s.looseEq then kept.map fun t => if s.looseEq t then s else t
    else kept ++ [s]) []

/-- The schema of a union. -/
def anyOf (schemas : List Schema) : Schema :=
  match latest (schemas.flatMap alternatives) with
  | [.obj s] => s
  | all => [("anyOf", .arr all)]

/-- The schema of a union whose members are told apart by the values of a
property.  Each member comes with its values. -/
def oneOf (property : String) (members : List (List Json × Schema)) : Schema :=
  let choices :=
    Table.ofList <| members.flatMap fun (values, s) => values.map fun v => (v.inText, s)
  let mapping := choices.map fun (k, s) => (k, (Table.find? s "$ref").getD (.obj s))
  [("oneOf", .arr (latest (choices.map fun c => .obj c.2))),
    ("discriminator", .obj [("propertyName", .str property), ("mapping", .obj mapping)])]

/-- The schema of a sequence of items. -/
def arrayOf (items : Schema) (unique : Bool) : Schema :=
  [("type", .str "array"), ("items", .obj items)] ++
    if unique then [("uniqueItems", .bool true)] else []

/-- The schema of a fixed row of items. -/
def rowOf (items : List Schema) : Schema :=
  let n : Json := .int items.length
  [("type", .str "array"), ("minItems", n), ("maxItems", n)] ++
    if items.isEmpty then [] else [("prefixItems", .arr (items.map .obj))]

/-- The schema of entries.  The schema of the keys shows if it says more than
that they are texts; a pattern of the keys stands with the schema of the
values. -/
def entriesOf (keys values : Schema) : Schema :=
  let isRef := Table.has keys "$ref"
  let pattern := if isRef then none else Table.find? keys "pattern"
  let keys := if isRef then keys else (Table.erase keys "pattern").erase "title"
  let values := Table.erase values "title"
  let shown := isRef ||
    ((Table.find? keys "type").any (·.looseEq (.str "string")) && 1 < keys.length)
  [("type", .str "object")] ++
    (match pattern with
      | some (.str p) => [("patternProperties", .obj [(p, .obj values)])]
      | _ =>
        [("additionalProperties", if values.isEmpty then .bool true else .obj values)]) ++
    if shown then [("propertyNames", .obj (Table.erase keys "type"))] else []

/-- A schema without its own title. -/
def untitled (s : Schema) : Schema := Table.erase s "title"

end Schema
end ApiTree
