import ApiTree.Document.Basic
import ApiTree.Selection.Basic

/-!
# ApiTree.Selection.Update

Changing selected operations of a document.  All of them must be there before
one is changed, and each is changed once, however often it is selected.

A selection may also name what all path items have in common.  The outcome of
such a change stands in the place of that member in a copy of the path item; it
is no part of the document, but it may stop later changes at the same path.
-/

namespace ApiTree
namespace Document

open PathItem (Member)

variable [PathItem.Base]

/-- The first selected operation that is not in the document, as a fault. -/
def checkSelected (d : Document) : List OperationKey → Except Fault Unit
  | [] => .ok ()
  | k :: ks => do
    match ← d.operation k.path k.method with
    | .absent => throw (.conflict ⟨k.title, .notInDocument⟩)
    | _ => checkSelected d ks

/-- Paths while some of their operations are changed. -/
structure Changing where
  paths : Table String PathItem
  /-- The changed keys that lead to no operation. -/
  replaced : List OperationKey := []

namespace Changing

/-- What stops a copy of the path item at a path. -/
def hindrance? (s : Changing) (path : String) : Option Fault :=
  s.replaced.findSome? fun k => if k.path = path then PathItem.hindrance? k.method else none

/-- A copy of the path item of a key with an operation in the place of what the key leads to. -/
def put (s : Changing) (item : PathItem) (k : OperationKey) (op : Operation) :
    Except Fault Changing :=
  match s.hindrance? k.path with
  | some fault => .error fault
  | none =>
    match Method.ofName? k.method with
    | some m => .ok { s with paths := s.paths.put k.path (item.set m op) }
    | none => .ok { s with replaced := s.replaced ++ [k] }

end Changing

variable {m : Type → Type} [Monad m]

/-- Changes what a key leads to under the exact name of its method. -/
def changeAt (f : Member → m Operation) (s : Changing) (k : OperationKey) :
    ExceptT Fault m Changing :=
  match s.paths.find? k.path with
  | some item => do
    let x ← item.lookup k.method
    let changed ← f x
    s.put item k changed
  | none => throw (.missingKey k.path)

/-- The document with the action `f` run once on what each selected key leads to. -/
def applyOverM (d : Document) (selection : List OperationKey) (f : Member → m Operation) :
    ExceptT Fault m Document := do
  let keys := selection.eraseDups
  d.checkSelected keys
  return { d with paths := (← keys.foldlM (changeAt f) { paths := d.paths }).paths }

/-- The operation that a change of operations is made to; anything else has no copy. -/
def toChange : Member → Except Fault Operation
  | .operation op => .ok op
  | .common _ kind => .error (.noMember kind "model_copy")
  | .absent => .error (.noMember "NoneType" "model_copy")

/-- The document with `f` applied once to each selected operation. -/
def applyOver (d : Document) (selection : List OperationKey) (f : Operation → Operation) :
    Except Fault Document := do
  (← (d.applyOverM selection fun x => return f (← toChange x)).run)

end Document
end ApiTree
