import ApiTree.Ty.Basic

/-!
# ApiTree.Ty.Catalog

Declared types: models, wrappers around one type, plain records, enumerations
and opaque classes.  A catalogue lists the declarations of a program; types
refer to them by their place in it.  A generic declaration has one entry for
each argument that it is used with.
-/

namespace ApiTree

/-- What becomes of members that a model does not declare. -/
inductive Extra where
  | ignored
  | allowed
  | forbidden
deriving DecidableEq, Repr, Inhabited

/-- A field of a declared type. -/
structure FieldDecl where
  name : String
  ty : Ty
  /-- The value of a field that is left out, if it may be left out. -/
  default : Option Json := none
  spec : FieldSpec := {}
deriving Repr, Inhabited

/-- What the members of an enumeration are beside members: values of a kind into
which the given values were converted. -/
inductive EnumBase where
  | int
  | text
deriving DecidableEq, Repr

/-- What a declared type is. -/
inductive Form where
  /-- A validated record.  The fields named in `asText` are encoded as text. -/
  | model (fields : List FieldDecl) (extra : Extra) (title : Option String)
      (asText : List String)
  /-- A named wrapper around one type. -/
  | root (ty : Ty)
  /-- A record that takes its fields as they are. -/
  | record (fields : List FieldDecl)
  /-- Names and values; a name whose value came before is an alias. -/
  | enum (members : List (String × Json)) (base : Option EnumBase)
  /-- A class without structure. -/
  | opaqueClass
deriving Repr, Inhabited

/-- How a declared type draws samples of its own. -/
structure Samples where
  values : List Json
  /-- Whether the values are taken without validation. -/
  raw : Bool
deriving Repr, Inhabited

/-- A declaration. -/
structure Decl where
  name : String
  /-- The name with the scopes that the declaration stands in. -/
  qualname : String
  /-- Of a generic declaration with an argument: the name with its scopes before
  the argument, and the argument. -/
  generic : Option (String × String) := none
  doc : Option String := none
  form : Form
  samples : Option Samples := none
deriving Repr, Inhabited

/-- The declarations of a program. -/
abbrev Catalog := List Decl

namespace FieldDecl

/-- The notes on the type of the field, then those on the field itself. -/
def notes (f : FieldDecl) : List Note := f.ty.notes ++ [.field f.spec]

/-- The name of the field in encoded form. -/
def wireName (f : FieldDecl) : String := (Note.last? (·.wireName) f.notes).getD f.name

end FieldDecl

namespace Form

/-- The types that stand directly inside a declaration. -/
def parts : Form → List Ty
  | .model fs _ _ _ | .record fs => fs.map (·.ty)
  | .root ty => [ty]
  | _ => []

/-- Whether a declaration of this form has a component of its own. -/
def isNamed : Form → Bool
  | .opaqueClass => false
  | _ => true

/-- The members of an enumeration, an alias with the value of the member that it
stands for. -/
def settledMembers (members : List (String × Json)) : List (String × Json) :=
  members.map fun (name, v) => (name, ((members.find? (·.2.looseEq v)).map (·.2)).getD v)

/-- The members of an enumeration without aliases. -/
def distinctMembers (members : List (String × Json)) : List (String × Json) :=
  Ty.distinct (fun a b => a.2.looseEq b.2) members

end Form

namespace Catalog

/-- The declaration at a place. -/
def decl (catalog : Catalog) (i : Nat) : Decl := catalog[i]?.getD default

/-- Whether the declaration of a place is known already. -/
def isFilled (catalog : Catalog) (i : Nat) : Bool := !(catalog.decl i).name.isEmpty

/-- What the declared type at a place is. -/
def form (c : Catalog) (i : Nat) : Form := (c.decl i).form

/-- Whether the type has an entry of its own among the components. -/
def isNamed (c : Catalog) : Ty → Bool
  | .cls i => (c.form i).isNamed
  | _ => false

end Catalog
end ApiTree
