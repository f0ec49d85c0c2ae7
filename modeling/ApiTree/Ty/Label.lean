import ApiTree.Ty.Catalog

/-!
# ApiTree.Ty.Label

The written forms of a type.  `Catalog.identity` tells types apart and is the
key under which they are registered, `Catalog.label` is the short form of
reports, and `Catalog.display` the form that
names the argument of a generic declaration.
-/

namespace ApiTree

namespace Scalar

/-- The short name. -/
def name : Scalar → String
  | .any => "Any"
  | .object => "object"
  | .null => "None"
  | .int => "int"
  | .bool => "bool"
  | .float => "float"
  | .str => "str"
  | .bytes => "bytes"
  | .date => "date"
  | .datetime => "datetime"
  | .uuid => "UUID"
  | .decimal => "Decimal"

/-- The name with its scope. -/
def identity : Scalar → String
  | .any => "typing.Any"
  | .null => "NoneType"
  | .date => "datetime.date"
  | .datetime => "datetime.datetime"
  | .uuid => "uuid.UUID"
  | .decimal => "decimal.Decimal"
  | s => s.name

end Scalar

/-- The name of an open collection. -/
def Bare.name : Bare → String
  | .list => "list"
  | .dict => "dict"
  | .tuple => "tuple"
  | .set => "set"

namespace Collector

/-- The short name. -/
def name : Collector → String
  | .list => "list"
  | .sequence => "Sequence"
  | .set => "set"
  | .frozenset => "frozenset"
  | .run => "tuple"

/-- The name with its scope. -/
def identity : Collector → String
  | .sequence => "typing.Sequence"
  | c => c.name

end Collector

namespace Keyed

/-- The short name. -/
def name : Keyed → String
  | .dict => "dict"
  | .mapping => "Mapping"

/-- The name with its scope. -/
def identity : Keyed → String
  | .dict => "dict"
  | .mapping => "typing.Mapping"

end Keyed

/-- A text in round brackets after a name. -/
def called (name : String) (args : List String) : String :=
  name ++ "(" ++ ", ".intercalate args ++ ")"

/-- Texts in square brackets after a name. -/
def indexed (name : String) (args : List String) : String :=
  name ++ "[" ++ ", ".intercalate args ++ "]"

namespace Limit

/-- The written form of a constraint. -/
def text : Limit → String
  | .gt n => called "Gt" ["gt=" ++ n.text]
  | .ge n => called "Ge" ["ge=" ++ n.text]
  | .lt n => called "Lt" ["lt=" ++ n.text]
  | .le n => called "Le" ["le=" ++ n.text]
  | .multipleOf n => called "MultipleOf" ["multiple_of=" ++ n.text]
  | .minLength n => called "MinLen" ["min_length=" ++ n.text]
  | .maxLength n => called "MaxLen" ["max_length=" ++ n.text]
  | .pattern p => called "_PydanticGeneralMetadata" ["pattern=" ++ quoted p]

/-- The word for a constraint. -/
def kind : Limit → String
  | .gt _ => "Gt"
  | .ge _ => "Ge"
  | .lt _ => "Lt"
  | .le _ => "Le"
  | .multipleOf _ => "MultipleOf"
  | .minLength _ => "MinLen"
  | .maxLength _ => "MaxLen"
  | .pattern _ => "_PydanticGeneralMetadata"

end Limit

/-- A name and a quoted text, if there is one. -/
def quotedItem (name : String) : Option String → List String
  | none => []
  | some s => [name ++ "=" ++ quoted s]

/-- The written form of what is said about a field. -/
def FieldSpec.text (f : FieldSpec) : String :=
  called "FieldInfo" <|
    ["annotation=NoneType", "required=True"] ++
    (match f.wireName with
      | none => []
      | some a => ["alias=" ++ quoted a, "alias_priority=2"]) ++
    quotedItem "title" f.title ++ quotedItem "description" f.description ++
    quotedItem "discriminator" f.discriminator ++
    if f.limits.isEmpty then [] else [indexed "metadata=" (f.limits.map Limit.text)]

namespace Note

/-- The written form of an optional bound. -/
def boundText (name : String) (b : Option Number) : String :=
  name ++ "=" ++ (b.map Number.text).getD "None"

/-- The written form of a note. -/
def shown : Note → String
  | .text s => quoted s
  | .limit l => l.text
  | .interval gt ge lt le =>
    called "Interval" [boundText "gt" gt, boundText "ge" ge, boundText "lt" lt, boundText "le" le]
  | .field spec => spec.text

/-- The form of a note in the argument of a generic declaration. -/
def display : Note → String
  | .text _ => "str"
  | .limit l => l.kind
  | .interval .. => "Interval"
  | .field spec => spec.text

end Note

namespace Catalog

/-- The scope of all declarations. -/
def scope : String := "api"

mutual

/-- The form of a type as the argument of a generic declaration. -/
def display (c : Catalog) : Ty → String
  | .nothing => "NoneType"
  | .scalar s => if s = .null then "NoneType" else s.name
  | .bare b => b.name
  | .cls i => (c.decl i).qualname
  | .each k t => indexed k.name (display c t :: if k = .run then ["..."] else [])
  | .tuple ts => indexed "tuple" (displayList c ts)
  | .keyed k t u => indexed k.name [display c t, display c u]
  | .union _ ts => indexed "Union" (displayList c ts)
  | .literal vs => indexed "Literal" (vs.map Json.shown)
  | .annotated t ns => indexed "Annotated" (display c t :: ns.map Note.display)

/-- The displayed forms of types. -/
def displayList (c : Catalog) : List Ty → List String
  | [] => []
  | t :: ts => display c t :: displayList c ts

end

/-- The name of a declared type with its scopes. -/
def classIdentity (c : Catalog) (i : Nat) : String := scope ++ "." ++ (c.decl i).qualname

mutual

/-- The text that tells a type from others. -/
def identity (c : Catalog) : Ty → String
  | .nothing => "None"
  | .scalar s => s.identity
  | .bare b => b.name
  | .cls i => c.classIdentity i
  | .each k t => indexed k.identity (identity c t :: if k = .run then ["..."] else [])
  | .tuple ts => if ts.isEmpty then "tuple[()]" else indexed "tuple" (identityList c ts)
  | .keyed k t u => indexed k.identity [identity c t, identity c u]
  | .union style ts =>
    let names := identityList c ts
    match style with
    | .bars => " | ".intercalate (names.map fun n => if n == "NoneType" then "None" else n)
    | .named =>
      match ts, names with
      | [a, b], [n, m] =>
        if Ty.same (.scalar .null) a then indexed "typing.Optional" [m]
        else if Ty.same (.scalar .null) b then indexed "typing.Optional" [n]
        else indexed "typing.Union" [n, m]
      | _, _ => indexed "typing.Union" names
  | .literal vs => indexed "typing.Literal" (vs.map Json.shown)
  | .annotated t ns => indexed "typing.Annotated" (identity c t :: ns.map Note.shown)

/-- The identities of types. -/
def identityList (c : Catalog) : List Ty → List String
  | [] => []
  | t :: ts => identity c t :: identityList c ts

end

/-- A text without the mark of the scope of type constructors. -/
def unscoped (s : String) : String := s.replace "typing." ""

mutual

/-- The short name of a type. -/
def label (c : Catalog) : Ty → String
  | .nothing => "None"
  | .scalar s => s.name
  | .bare b => b.name
  | .cls i => (c.decl i).name
  | .each k t => indexed k.name (label c t :: if k = .run then ["Ellipsis"] else [])
  | .tuple ts => indexed "tuple" (labelList c ts)
  | .keyed k t u => indexed k.name [label c t, label c u]
  | .union style ts =>
    indexed (if style = .named then "Union" else "UnionType") (labelList c ts)
  | .literal vs => indexed "Literal" (vs.map fun v => unscoped v.shown)
  | .annotated t _ => label c t

/-- The short names of types. -/
def labelList (c : Catalog) : List Ty → List String
  | [] => []
  | t :: ts => label c t :: labelList c ts

end

end Catalog
end ApiTree
