import ApiTree.Shape.Basic

/-!
# ApiTree.Shape.Word

The words for shapes: in the places of issues, and in the fault of a pattern that
stands where no text is.
-/

namespace ApiTree

/-- The word for a kind of numbers. -/
def Numeric.word : Numeric → String
  | .int => "int"
  | .float => "float"
  | .decimal => "decimal"

/-- The word for a kind of points in time. -/
def Timely.word : Timely → String
  | .date => "date"
  | .datetime => "datetime"

/-- The word for a collection. -/
def Collection.word : Collection → String
  | .list => "list"
  | .set => "set"
  | .frozenset => "frozenset"
  | .run => "tuple"

/-- A word, marked if there are constraints. -/
def constrained (free : Bool) (word : String) : String :=
  if free then word else "constrained-" ++ word

/-- Words in square brackets after another, without blanks. -/
def bracketedWords (word : String) (parts : List String) : String :=
  word ++ "[" ++ ",".intercalate parts ++ "]"

namespace Shape

/-- The word for what a pattern around a shape finds there. -/
def kindWord (c : Catalog) : Shape → String
  | .any => "any"
  | .null => "none"
  | .bool => "bool"
  | .uuid => "uuid"
  | .number k _ => k.word
  | .moment k _ => k.word
  | .text .. => "str"
  | .bytes _ => "bytes"
  | .literal _ => "literal"
  | .gathered k _ _ => k.word
  | .sequence _ => "json-or-python"
  | .row .. => "tuple"
  | .entries .. => "dict"
  | .declared u =>
    match c.form u.index with
    | .record _ => "dataclass"
    | .enum members _ => if members.isEmpty then "is-instance" else "enum"
    | _ => "model"
  | .nullable _ => "nullable"
  | .union _ => "union"
  | .tagged .. => "tagged-union"
  | .limited .. => "function-after"
  | .patterned .. => "chain"
  | .said _ _ s => kindWord c s

/-- The words for the check of a pattern around a shape. -/
def patternWord : String := "function-wrap[_apply_constraint_with_incompatibility_info()]"

mutual

/-- The word for a member of a union in the place of an issue. -/
def word (c : Catalog) : Shape → String
  | .any => "any"
  | .null => "none"
  | .bool => "bool"
  | .uuid => "uuid"
  | .number .decimal _ => "decimal"
  | .number k b => constrained b.isFree k.word
  | .moment k _ => k.word
  | .text z p => constrained (z.isFree && p.isNone) "str"
  | .bytes z => constrained z.isFree "bytes"
  | .literal vs => bracketedWords "literal" (vs.map Json.shown)
  | .gathered .run _ s => "tuple[" ++ word c s ++ ", ...]"
  | .gathered k _ s => bracketedWords k.word [word c s]
  | .sequence .any => "json-or-python[json=list[any],python=is-instance[Sequence]]"
  | .sequence s =>
    "json-or-python[json=list[" ++ word c s ++
      "],python=chain[is-instance[Sequence],function-wrap[sequence_validator()]]]"
  | .row _ ss => "tuple[" ++ ", ".intercalate (words c ss) ++ "]"
  | .entries _ k v => bracketedWords "dict" [word c k, word c v]
  | .declared u =>
    match c.form u.index with
    | .enum .. => bracketedWords (kindWord c (.declared u)) [(c.decl u.index).qualname]
    | _ => (c.decl u.index).name
  | .nullable s => bracketedWords "nullable" [word c s]
  | .union ss => bracketedWords "union" (words c ss)
  | .tagged _ members => bracketedWords "tagged-union" (taggedWords c members)
  | .limited _ s => bracketedWords "function-after" [word c s]
  | .patterned _ s => bracketedWords "chain" [word c s, patternWord]
  | .said _ _ s => word c s

/-- The words for shapes. -/
def words (c : Catalog) : List Shape → List String
  | [] => []
  | s :: ss => word c s :: words c ss

/-- The words for the members of a union with values that tell them apart. -/
def taggedWords (c : Catalog) : List (List Json × Shape) → List String
  | [] => []
  | (_, s) :: ss => word c s :: taggedWords c ss

end

end Shape
end ApiTree
