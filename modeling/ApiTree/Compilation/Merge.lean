import ApiTree.Document.Basic
import ApiTree.Log.Event
import ApiTree.Route.Path

/-!
# ApiTree.Compilation.Merge

Merging what two parts of a tree say about the same path.  Responses, tags and
security requirements are united, and the right side wins where both speak of
one status; parameters and bodies must agree, and a disagreement is a
conflict.  The spelling of a path is the left one, so captures on the right
side are renamed to it.
-/

namespace ApiTree

/-- The operations under one path key: the spelling of the path and the names
of its captures. -/
structure PathEntry where
  display : String
  captures : List String
  operations : Table Method Operation
deriving Repr, Inhabited

/-- What a part of a tree compiles to. -/
abbrev Partial := Table PathKey PathEntry

/-- The elements of the first list, then those of the second that are new. -/
def union {α : Type} (same : α → α → Bool) (left right : List α) : List α :=
  right.foldl (fun all x => if all.any (same x) then all else all ++ [x]) left

/-! ## Parameters -/

namespace Parameter

/-- What tells a parameter from others: where it is and its name. -/
def key (p : Parameter) : String × String := (p.location, p.name)

end Parameter

/-- Parameters by key; of two with one key the later counts. -/
def parameterTable (ps : List Parameter) : Table (String × String) Parameter :=
  Table.ofList (ps.map fun p => (p.key, p))

/-- Why two parameters of one key cannot stand for each other. -/
def Parameter.disagreement? (a b : Parameter) : Option ConflictCause :=
  if !Schema.sameOption a.schema b.schema then some (.parameterSchemas a.location a.name)
  else if a.required.getD false != b.required.getD false then
    some (.parameterRequired a.location a.name)
  else none

/-- Why two lists of parameters cannot stand for each other: a key on one side
only, or a key that is declared in different ways. -/
def parametersDisagree? (left right : List Parameter) : Option ConflictCause :=
  let ours := parameterTable left
  let theirs := parameterTable right
  let oneSided := (ours.keys.filter (!theirs.has ·)) ++ (theirs.keys.filter (!ours.has ·))
  match oneSided with
  | (location, name) :: _ => some (.parameterOneSided location name)
  | [] => ours.findSome? fun (k, p) => (theirs.find? k).bind p.disagreement?

/-! ## Bodies -/

/-- Puts the contents on the right over those on the left, which must agree
where both have a content type. -/
def mergeContent (left right : Table String MediaType) :
    Except ConflictCause (Table String MediaType) :=
  left.mergeM (fun ct a b =>
    if Schema.sameOption a.schema b.schema then .ok b else .error (.bodySchemas ct)) right

/-- Merges the bodies of two declarations. -/
def mergeBodies : Option RequestBody → Option RequestBody →
    Except ConflictCause (Option RequestBody)
  | none, none => .ok none
  | some a, some b => do
    let content ← mergeContent a.content b.content
    return some
      { content
        required := some (a.required.getD false || b.required.getD false)
        description := b.description.or a.description }
  | _, _ => .error .bodyOneSided

/-! ## Operations -/

/-- The first text unless it is absent or empty. -/
def nonEmptyOr (a b : Option String) : Option String :=
  match a with
  | some s => if s.isEmpty then b else some s
  | none => b

/-- Merges two declarations of one operation, the right one applied last. -/
def mergeOperations (identity : String) (left right : Operation) : Except Conflict Operation :=
  match parametersDisagree? left.parameters right.parameters with
  | some cause => .error ⟨identity, cause⟩
  | none =>
    match mergeBodies left.requestBody right.requestBody with
    | .error cause => .error ⟨identity, cause⟩
    | .ok requestBody =>
      .ok
        { tags := union (· == ·) left.tags right.tags
          summary := right.summary.or left.summary
          description := right.description.or left.description
          operationId := nonEmptyOr right.operationId left.operationId
          parameters := left.parameters
          requestBody
          responses := right.responses.foldl (fun t (k, r) => t.put k r) left.responses
          security := union SecurityRequirement.same left.security right.security }

/-- The responses on the left that a different one on the right replaces. -/
def overrides (identity : String) (left right : Operation) : List Event :=
  right.responses.filterMap fun (status, r) =>
    match left.responses.find? status with
    | some l =>
      if l.same r then none
      else some (.responseOverride identity status l.description r.description)
    | none => none

/-! ## Renaming captures -/

/-- Replaces names between backticks; a name is a text without backticks. -/
def renameQuoted (renames : Table String String) : Nat → List Char → List Char
  | 0, cs => cs
  | _, [] => []
  | fuel + 1, c :: cs =>
    if c = '\x60' then
      let name := cs.takeWhile (· != '\x60')
      match cs.dropWhile (· != '\x60') with
      | close :: rest =>
        if name.isEmpty then c :: renameQuoted renames fuel cs
        else
          let known := (renames.find? (String.ofList name)).elim name String.toList
          c :: known ++ close :: renameQuoted renames fuel rest
      | [] => c :: renameQuoted renames fuel cs
    else c :: renameQuoted renames fuel cs

/-- Renames the names between the backticks of a text. -/
def renameText (renames : Table String String) (s : String) : String :=
  String.ofList (renameQuoted renames s.length s.toList)

/-- Renames captures in the parameters of an operation and in the text of its
response for a path that is not found. -/
def renameCaptures (renames : Table String String) (op : Operation) : Operation :=
  { op with
    parameters := op.parameters.map fun p =>
      if p.location == "path" then { p with name := (renames.find? p.name).getD p.name } else p
    responses := op.responses.map fun (status, r) =>
      if status == "404" then (status, { r with description := renameText renames r.description })
      else (status, r) }

/-- How captures on the right are spelled on the left, where that differs. -/
def renamesOf (left right : List String) : Table String String :=
  Table.ofList ((left.zip right).filterMap fun (ours, theirs) =>
    if ours == theirs then none else some (theirs, ours))

/-! ## Entries -/

namespace PathEntry

/-- The operations of the right entry with its captures spelled as on the left. -/
def spelledAs (left right : PathEntry) : Table Method Operation :=
  let renames := renamesOf left.captures right.captures
  if renames.isEmpty then right.operations
  else right.operations.map fun (m, op) => (m, renameCaptures renames op)

/-- The method and path of an operation. -/
def title (e : PathEntry) (m : Method) : String := m.upper ++ " " ++ e.display

/-- Merges two entries of one path. -/
def merge (left right : PathEntry) : Except Conflict PathEntry := do
  let operations ←
    left.operations.mergeM (fun m => mergeOperations (left.title m)) (left.spelledAs right)
  return { left with operations }

/-- The responses that a merge of two entries replaces. -/
def overrides (left right : PathEntry) : List Event :=
  (left.spelledAs right).flatMap fun (m, op) =>
    match left.operations.find? m with
    | some existing => ApiTree.overrides (left.title m) existing op
    | none => []

end PathEntry

namespace Partial

/-- Merges what two parts compile to; paths on the left keep their place. -/
def merge (left right : Partial) : Except Conflict Partial :=
  Table.mergeM (fun _ => PathEntry.merge) left right

/-- The responses that a merge of two parts replaces. -/
def overrides (left right : Partial) : List Event :=
  right.flatMap fun (key, e) =>
    match Table.find? left key with
    | some existing => existing.overrides e
    | none => []

end Partial
end ApiTree
