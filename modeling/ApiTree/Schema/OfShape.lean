import ApiTree.Schema.Basic
import ApiTree.Shape.Basic

/-!
# ApiTree.Schema.OfShape

The schema of a shape.  Names of components are chosen when all schemas are
known, so references are by working names: they tell every two uses of declared
types apart, and no text of a schema looks like one.
-/

namespace ApiTree

namespace Use

/-- What a working name begins with. -/
def firstOfName : Char := '\x00'

/-- The name of a use of a declared type while names are not chosen. -/
def name (u : Use) : String := firstOfName.toString ++ toString u.index ++ u.mark

/-- The use that a working name stands for. -/
def ofName? (s : String) : Option Use :=
  match s.toList with
  | [] => none
  | c :: cs =>
    let ds := cs.takeWhile Char.isDigit
    if c == firstOfName && !ds.isEmpty then
      some ⟨Numeral.ofDigits 10 ds, String.ofList (cs.drop ds.length)⟩
    else none

end Use

namespace Limit

/-- The value of a constraint. -/
def value : Limit → Json
  | .gt n | .ge n | .lt n | .le n | .multipleOf n | .minLength n | .maxLength n => n.toJson
  | .pattern p => .str p

/-- The keyword of a constraint around a shape; `listed` says whether its values
are lists. -/
def keyword (listed : Bool) : Limit → String
  | .gt _ => "gt"
  | .ge _ => "ge"
  | .lt _ => "lt"
  | .le _ => "le"
  | .multipleOf _ => "multiple_of"
  | .minLength _ => if listed then "minItems" else "minLength"
  | .maxLength _ => if listed then "maxItems" else "maxLength"
  | .pattern _ => "pattern"

end Limit

/-- Writes bounds on numbers into a schema. -/
def Bounds.writeTo (b : Bounds) (s : Schema) : Schema :=
  ((((s.putNumber "multipleOf" b.multipleOf).putNumber "maximum" b.le).putNumber
    "exclusiveMaximum" b.lt).putNumber "minimum" b.ge).putNumber "exclusiveMinimum" b.gt

/-- The bounds as doubles. -/
def Bounds.asDoubles (b : Bounds) : Bounds :=
  let double : Number → Number
    | .int n => .float (.ofInt n)
    | n => n
  { gt := b.gt.map double, ge := b.ge.map double, lt := b.lt.map double, le := b.le.map double
    multipleOf := b.multipleOf.map double }

/-- Writes bounds on a size into a schema, for values of which the size is told by
keywords that end in `what`. -/
def Size.writeTo (z : Size) (what : String) (s : Schema) : Schema :=
  (s.putNumber ("min" ++ what) z.least).putNumber ("max" ++ what) z.most

/-- The schema of numbers. -/
def Numeric.schema (b : Bounds) : Numeric → Schema
  | .int => b.writeTo (Schema.ofType "integer")
  | .float => b.writeTo (Schema.ofType "number")
  | .decimal =>
    [("anyOf", .arr
      [.obj (b.asDoubles.writeTo (Schema.ofType "number")), .obj (Schema.ofType "string")])]

/-- The format of a kind of points in time. -/
def Timely.format : Timely → String
  | .date => "date"
  | .datetime => "date-time"

/-- The schema of texts in a format. -/
def Schema.ofFormat (format : String) : Schema := ofType "string" ++ [("format", .str format)]

namespace Shape

/-- Whether the values under the constraints are lists. -/
def isListed : Shape → Bool
  | .gathered .list _ _ | .sequence _ => true
  | .limited _ s | .said _ _ s => isListed s
  | _ => false

mutual

/-- The schema of a shape. -/
def schema : Shape → Schema
  | .any => []
  | .null => Schema.ofType "null"
  | .bool => Schema.ofType "boolean"
  | .uuid => Schema.ofFormat "uuid"
  | .number k b => k.schema b
  | .moment k _ => Schema.ofFormat k.format
  | .text size p => (size.writeTo "Length" (Schema.ofType "string")).putText "pattern" p
  | .bytes size => size.writeTo "Length" (Schema.ofFormat "binary")
  | .literal vs => Schema.ofValues vs
  | .gathered k size s =>
    size.writeTo "Items" <| Schema.arrayOf (schema s) (k = .set || k = .frozenset)
  | .sequence s => Schema.arrayOf (schema s) false
  | .row size ss => size.writeTo "Items" (Schema.rowOf (schemas ss))
  | .entries size k v => size.writeTo "Properties" (Schema.entriesOf (schema k) (schema v))
  | .declared u => Reference.schema u.name
  | .nullable s => Schema.nullable (schema s)
  | .union ss => Schema.anyOf (schemas ss)
  | .tagged property members => Schema.oneOf property (taggedSchemas members)
  | .limited l s => Table.put (schema s) (l.keyword s.isListed) l.value
  | .patterned _ s => schema s
  | .said title description s =>
    ((schema s).putText "title" title).putText "description" description

/-- The schemas of shapes. -/
def schemas : List Shape → List Schema
  | [] => []
  | s :: ss => schema s :: schemas ss

/-- The schemas of shapes with the values that tell them apart. -/
def taggedSchemas : List (List Json × Shape) → List (List Json × Schema)
  | [] => []
  | (tags, s) :: ss => (tags, schema s) :: taggedSchemas ss

end

end Shape
end ApiTree
