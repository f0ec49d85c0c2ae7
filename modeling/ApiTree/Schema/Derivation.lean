import ApiTree.Shape.Flaw
import ApiTree.Schema.Definition
import ApiTree.Schema.Order
import ApiTree.Text.Pieces

/-!
# ApiTree.Schema.Derivation

The schema of a type with the definitions that its references lead to.  Schemas
are computed with working names for the declared types, and names are chosen
last: each declared type gets the shortest of its names that stands for one
schema only.
-/

namespace ApiTree
namespace Catalog

/-! ## Working schemas -/

/-- The uses of declared types that a schema refers to. -/
def refersTo (s : Schema) : List Use :=
  (Reference.all (.obj s)).filterMap fun ref => (Reference.target? ref).bind Use.ofName?

/-- The definition of a declared type under working names. -/
def working (c : Catalog) (p : Progress) (u : Use) : Schema :=
  c.definition (fun v => if p.isBefore v u then p.complete.find? v else none)
    ((p.complete.find? u).getD .ignored) u.index

/-! ## Names -/

/-- A component name with every character replaced that does not fit. -/
def fitting (s : String) : String :=
  String.ofList (s.toList.flatMap fun c =>
    if c == '.' then ['_', '_'] else if c.isAlphanum || c == '-' || c == '_' then [c] else ['_'])

/-- The parts of a dotted name that are no scope of the next part. -/
def lastParts : List String → List String
  | a :: b :: rest =>
    if a.isEmpty || b.isEmpty then a :: lastParts (b :: rest) else lastParts (b :: rest)
  | parts => parts

/-- A name without its scopes. -/
def unscopedName (s : String) : String := ".".intercalate (lastParts (pieces '.' s))

/-- A text without its last colon and what follows it. -/
def beforeColon (s : String) : String :=
  match pieces ':' s with
  | [s] => s
  | parts => ":".intercalate parts.dropLast

/-- The parts of a text between brackets and commas, which are parts too; `word` is
the part read last, backwards. -/
def bracketed (word : List Char) : List Char → List String
  | [] => [String.ofList word.reverse]
  | c :: cs =>
    if c == '[' || c == ']' || c == ',' then
      String.ofList word.reverse :: c.toString :: bracketed [] cs
    else bracketed (c :: word) cs

/-- The parts of the full name of a use.  In a generic name a part ends with its
last colon, as does the name itself. -/
def nameParts (c : Catalog) (u : Use) : List String :=
  let d := c.decl u.index
  let written := match d.generic with
    | some (qualname, argument) => qualname ++ ":" ++ indexed "" [argument ++ ":"]
    | none => d.qualname ++ ":"
  (bracketed [] (scope ++ "." ++ written ++ u.mark).toList).map beforeColon

/-- The names that a use may have, the best first.  The last one counts the uses
with the same full name, in the order in which they are named. -/
def candidates (c : Catalog) (order : List Use) (u : Use) : List String :=
  let long (u : Use) : String := fitting (String.join (c.nameParts u))
  let earlier := (order.takeWhile (· != u)).filter fun v => long v == long u
  [fitting (String.join ((c.nameParts u).map unscopedName)), long u,
    long u ++ "__" ++ toString (earlier.length + 1)]

/-- The naming that gives each use the first of its names under which all other uses
that may have it have the same schema. -/
def naming (entries : List (Use × List String × Json)) : Table Use String :=
  entries.map fun (u, names, s) =>
    let clear (n : String) : Bool :=
      entries.all fun (v, names', s') => v == u || !names'.contains n || s.looseEq s'
    (u, (names.find? clear).getD (names.getLastD u.name))

/-- A value with the working names replaced. -/
def withNames (names : Table Use String) (j : Json) : Json :=
  Reference.renamed (fun s => (Use.ofName? s).bind names.find?) .schema j

/-! ## Derivation -/

/-- A schema and the definitions that its references lead to. -/
structure Derived where
  schema : Schema
  definitions : Table String Schema
deriving Repr

/-- The members of an object. -/
def membersOf : Json → Schema
  | .obj ms => ms
  | _ => []

/-- Derives the schema of a type.  A declared type that is not used by itself
stands in full where it is the whole type. -/
def derive (c : Catalog) (t : Ty) : Except Fault Derived := do
  c.checkUse t
  let p := c.progress t
  let start := (c.shape t).schema
  let uses (u : Use) : List Use := refersTo (c.working p u)
  let rounds := (refersTo start).length +
    p.complete.keys.foldl (fun n u => n + (uses u).length) 1
  let closure (heads : List Use) : List Use := depthFirst uses rounds heads []
  let inFull? : Option Use := match start, refersTo start with
    | [_], [u] => if (closure [u]).any fun v => (uses v).contains u then none else some u
    | _, _ => none
  let top := match inFull?.filter fun _ => Table.has start "$ref" with
    | some u => c.working p u
    | none => start
  let types := closure (refersTo top)
  let entries := types.map fun u => (u, c.candidates p.named u, Json.obj (c.working p u))
  -- once named, definitions may turn out to be equal
  let first := naming entries
  let names := naming (entries.map fun (u, ns, s) => (u, ns, withNames first s))
  let definitions := Table.ofList <| entries.map fun (u, _, s) =>
    ((names.find? u).getD u.name, Schema.untitled (membersOf (withNames names s)))
  return {
    schema := Schema.untitled (membersOf (withNames names (.obj top)))
    definitions := definitions.sorted }

end Catalog
end ApiTree
