import ApiTree.Compilation.Leaf

/-!
# ApiTree.Compilation.Document

Compiling a route tree into a document.  The tree is folded with the chain of
qualifiers above the place reached: a leaf gives the operation of its route,
and two sides are merged.
-/

namespace ApiTree
open Compiling

namespace Tree

/-- Folds a tree below a chain of qualifiers: what it compiles to, and what was
worth telling. -/
def fold (c : Catalog) (above : List Qualifier) : Tree → Compiling (Partial × List Event)
  | .leaf e => do return (← materialize c ⟨above, e⟩, [])
  | .seq q t => fold c (above ++ [q]) t
  | .alt l r => do
    let (left, before) ← fold c above l
    let (right, after) ← fold c above r
    match left.merge right with
    | .ok merged => return (merged, before ++ after ++ left.overrides right)
    | .error conflict => throw (.conflict conflict)
  | .empty => return ([], [])
  | .alien a => throw (.notATree a.shown)

end Tree

/-- The paths of a document. -/
def Partial.paths (p : Partial) : Table String PathItem :=
  Table.ofList (p.map fun (_, e) => (e.display, PathItem.ofOperations e.operations))

/-- How many operations a partial document has. -/
def Partial.operationCount (p : Partial) : Nat := (p.flatMap fun (_, e) => e.operations).length

/-- A compiled document and what was worth telling. -/
structure Compiled where
  document : Document
  events : List Event
deriving Repr, Inhabited

/-- Compiles a tree into a document. -/
def compile (c : Catalog) (t : Tree) (info : Info) (servers : List Server) :
    Except Fault Compiled := do
  let ((entries, events), s) ← (t.fold c []).run {}
  let paths := entries.paths
  return {
    document :=
      { info, servers, paths
        components := { schemas := s.registry.schemas, securitySchemes := s.securitySchemes } }
    events := events ++
      [.apiCompiled paths.length entries.operationCount s.registry.schemas.length] }

end ApiTree
