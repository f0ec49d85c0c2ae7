import ApiTree.Ty.Label

/-!
# ApiTree.Ty.Reach

The declared types that a type leads to.  `Ty.heads` are those that stand in
the type itself; a search through the parts of their declarations finds the
rest.  `Catalog.namedTypes` groups what is found by name: more than one
identity under a name means that two types would share a component.

The nodes of the search are declarations, each of which is gone into once.  A
search that tells its nodes apart by the identities of objects does the same as
long as these stay with their objects: one that makes the types of members anew,
and drops them again, can take one of them for another that is gone, and then
leaves it out.  What depends on the search is therefore defined for a table of
named types that is given (`Registry.bodySchema`, `Registry.parameterSchema`).
-/

namespace ApiTree
namespace Ty

mutual

/-- The declared types that stand in a type, in order. -/
def heads : Ty → List Nat
  | .cls i => [i]
  | .each _ t => heads t
  | .tuple ts => headsList ts
  | .keyed _ t u => heads t ++ heads u
  | .union _ ts => headsList ts
  | .annotated t _ => heads t
  | _ => []

/-- The declared types that stand in one of the types. -/
def headsList : List Ty → List Nat
  | [] => []
  | t :: ts => heads t ++ headsList ts

end

end Ty

/-- Depth first search from the nodes on the stack; each node comes before
those that it leads to.  Every round takes one node off the stack. -/
def depthFirst {α : Type} [BEq α] (next : α → List α) : Nat → List α → List α → List α
  | 0, _, found => found
  | _, [], found => found
  | rounds + 1, i :: stack, found =>
    if found.contains i then depthFirst next rounds stack found
    else depthFirst next rounds (next i ++ stack) (found ++ [i])

namespace Catalog

/-- The declared types that stand in the declaration of another. -/
def next (c : Catalog) (i : Nat) : List Nat := (c.form i).parts.flatMap Ty.heads

/-- How many rounds a search needs at most: a declaration puts its parts on
the stack once. -/
def rounds (c : Catalog) (start : List Nat) : Nat :=
  start.length + (c.flatMap fun d => d.form.parts.flatMap Ty.heads).length + 1

/-- The declared types reachable from a type, in the order of a depth first
search. -/
def reachable (c : Catalog) (t : Ty) : List Nat :=
  depthFirst c.next (c.rounds t.heads) t.heads []

/-- Whether a type has a schema: no class without structure is reachable. -/
def hasSchema (c : Catalog) (t : Ty) : Bool := (c.reachable t).all fun i => (c.form i).isNamed

/-- The named types reachable from a type: identities by component name.  Types
are told apart as nodes, so this is the table of a search that misses nothing.  A
search that tells them apart by the ids of their objects finds the same as long as
no id is used again while it runs. -/
def namedTypes (c : Catalog) (t : Ty) : Table String (List String) :=
  (c.reachable t).foldl (fun table i =>
    if (c.form i).isNamed then
      let known := (table.find? (c.decl i).name).getD []
      let id := c.classIdentity i
      table.put (c.decl i).name (if known.contains id then known else known ++ [id])
    else table) []

end Catalog
end ApiTree
