import ApiTree.Route.Path

/-!
# ApiTree.Selection.Basic

Selecting the operations that one tree denotes inside another.  Every route of
the pattern must equal a route of the target, and the routes found must keep
the order of the pattern; one target route may be found again.  The selection
names the operations as the compiled target spells them, each once.
-/

namespace ApiTree

/-- An operation of a document: its path as spelled there, and its method. -/
structure OperationKey where
  path : String
  method : String
deriving DecidableEq, Repr, Inhabited

namespace OperationKey

/-- The written form of a key. -/
def title (k : OperationKey) : String := Case.upper k.method ++ " " ++ k.path

end OperationKey

namespace Selection

/-- The spelling that the first route of a path gives to it. -/
def spelling (targets : List Route) (r : Route) : String :=
  match targets.find? fun t => t.key == r.key with
  | some first => first.display
  | none => r.display

/-- The key of a target route. -/
def keyOf (targets : List Route) (r : Route) : OperationKey :=
  ⟨spelling targets r, r.endpoint.method.name⟩

/-- The targets from the first one on that equals the wanted route. -/
def seek (wanted : Route) (targets : List Route) : List Route :=
  targets.dropWhile fun t => !t.same wanted

/-- The target routes that the pattern's routes equal, in the order of both;
`rest` are the targets that may still be used. -/
def embed (targets : List Route) : List Route → List Route → Except Conflict (List Route)
  | _, [] => .ok []
  | rest, wanted :: pattern =>
    match seek wanted rest with
    | found :: rest => do
      let more ← embed targets (found :: rest) pattern
      return found :: more
    | [] =>
      .error ⟨wanted.title,
        if (seek wanted targets).isEmpty then .notInTarget else .outOfOrder⟩

/-- The operations of some target routes, each once. -/
def keys (targets found : List Route) : List OperationKey :=
  (found.map (keyOf targets)).eraseDups

end Selection

/-- The operations of `tree` that `pattern` denotes. -/
def select (pattern tree : Tree) : Except Fault (List OperationKey) := do
  let targets ← tree.flatten
  let wanted ← pattern.flatten
  match Selection.embed targets targets wanted with
  | .ok found => return Selection.keys targets found
  | .error conflict => throw (.conflict conflict)

end ApiTree
