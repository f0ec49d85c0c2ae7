import ApiTree.Route.Node
import ApiTree.Source.Types

/-!
# ApiTree.Source.Routes

Reading route trees from JSON.  A node is an object whose member `k` names its
kind; members that are left out have their usual values.
-/

namespace ApiTree
namespace Source

/-- Reads a response header. -/
def responseHeader (j : Json) : Reading ResponseHeader := do
  return {
    name := text (member j "name")
    ty := ← type (member j "type")
    description := text? (member j "description") }

/-- The content types of a node. -/
def contentTypes (j : Json) : List String := ((j.get? "content_types").map texts).getD [jsonContent]

/-- The integer of a member, or a usual value. -/
def intOr (usual : Int) : Json → Int
  | .int n => n
  | _ => usual

/-- Reads a declared response. -/
def respond (j : Json) : Reading Respond := do
  return {
    status := intOr 0 (member j "status")
    description := text (member j "description")
    returns := ← type (member j "returns")
    contentTypes := contentTypes j }

/-- Reads an endpoint with the given method. -/
def endpoint (method : String) (j : Json) : Reading Endpoint := do
  let returns ← type (member j "returns")
  let headers ← (items (member j "headers")).mapM responseHeader
  let responses ← (items (member j "responses")).mapM respond
  let method ← MonadExcept.ofExcept (Method.ofText method)
  return {
    method, returns, headers, responses
    status := intOr 200 (member j "status")
    contentTypes := contentTypes j
    description := text (member j "description")
    tags := texts (member j "tags")
    summary := text? (member j "summary") }

/-- Reads a qualifier of the given kind, if it is one. -/
def qualifier? (kind : String) (j : Json) : Reading (Option Qualifier) := do
  let name := text (member j "name")
  let description := text? (member j "description")
  let required := (member j "required").truthy
  let ty := type (member j "type")
  match kind with
  | "segment" => return some (.segment (text (member j "literal")))
  | "capture" => return some (.capture name (← ty) description)
  | "capture_all" => return some (.captureAll name (← ty) description)
  | "query" => return some (.query name (← ty) required description)
  | "queries" => return some (.queries name (← ty) description)
  | "flag" => return some (.flag name description)
  | "header" => return some (.header name (← ty) required description)
  | "body" => return some (.body (← ty) (contentTypes j) description)
  | "basic" =>
    return some (.basic ((text? (member j "name")).getD "basic") (text (member j "realm")))
  | "bearer" =>
    return some (.bearer ((text? (member j "name")).getD "bearer")
      (text? (member j "bearer_format")))
  | "summary" => return some (.summary (text (member j "text")))
  | "description" => return some (.description (text (member j "text")))
  | _ => return none

/-- The endpoint kinds that carry their method in their name. -/
def verbs : List String := ["get", "post", "put", "patch", "delete"]

/-- Combines parts from left to right. -/
def chainOf (f : Node → Node → Except Fault Node) : List Node → Except Fault Node
  | [] => .ok (.raw .null)
  | n :: ns => ns.foldlM f n

/-- Reads a node, at most `fuel` levels deep. -/
def nodeWithin : Nat → Json → Reading Node
  | 0, _ => unreadable "a tree nested this deeply"
  | fuel + 1, j => do
    let kind := text (member j "k")
    let parts := (items (member j "of")).mapM (nodeWithin fuel)
    match kind with
    | "leaf" => return .leaf (← endpoint (text (member j "method")) j)
    | "empty" => return .empty
    | "raw" => return .raw (member j "value")
    | "prefix" => return .chain (← parts)
    | "div" => MonadExcept.ofExcept (chainOf Node.above (← parts))
    | "or" => MonadExcept.ofExcept (chainOf Node.beside (← parts))
    | "seq" =>
      match ← parts with
      | [q, t] => return .seq q t
      | _ => unreadable "a sequence"
    | "alt" =>
      match ← parts with
      | [l, r] => return .alt l r
      | _ => unreadable "an alternative"
    | kind =>
      if verbs.contains kind then return .leaf (← endpoint kind j)
      else
        match ← qualifier? kind j with
        | some q => return .qualifier q
        | none => unreadable ("node " ++ kind)

/-- Reads a node. -/
def node (j : Json) : Reading Node := nodeWithin depthLimit j

end Source
end ApiTree
