import ApiTree.Route.Method
import ApiTree.Ty.Label

/-!
# ApiTree.Route.Tree

Route trees.  A tree puts qualifiers (path segments, parameters, a body,
security, texts) on everything below them, joins two trees, and ends in
endpoints.  `Tree.flatten` lists the endpoints from left to right, each with
the qualifiers above it.
-/

namespace ApiTree

/-- The content type of JSON. -/
def jsonContent : String := "application/json;charset=utf-8"

/-- Something that is no part of a route tree but stands in one: its written
form and the form that messages show. -/
structure Alien where
  written : Json
  shown : String
deriving Repr, Inhabited

/-- What holds for every endpoint below. -/
inductive Qualifier where
  | segment (literal : String)
  | capture (name : String) (ty : Ty) (description : Option String)
  /-- Takes every remaining path segment. -/
  | captureAll (name : String) (ty : Ty) (description : Option String)
  | query (name : String) (ty : Ty) (required : Bool) (description : Option String)
  /-- A query parameter that may be repeated. -/
  | queries (name : String) (ty : Ty) (description : Option String)
  | flag (name : String) (description : Option String)
  | header (name : String) (ty : Ty) (required : Bool) (description : Option String)
  | body (ty : Ty) (contentTypes : List String) (description : Option String)
  | basic (name realm : String)
  | bearer (name : String) (format : Option String)
  | summary (text : String)
  | description (text : String)
  | alien (a : Alien)
deriving Repr, Inhabited

/-- A header of a response. -/
structure ResponseHeader where
  name : String
  ty : Ty
  description : Option String := none
deriving Repr, Inhabited

/-- A response that is declared for a status. -/
structure Respond where
  status : Int
  description : String := ""
  returns : Ty := .nothing
  contentTypes : List String := [jsonContent]
deriving Repr, Inhabited

/-- A method and what it answers. -/
structure Endpoint where
  method : Method
  returns : Ty := .nothing
  status : Int := 200
  contentTypes : List String := [jsonContent]
  headers : List ResponseHeader := []
  description : String := ""
  tags : List String := []
  summary : Option String := none
  responses : List Respond := []
deriving Repr, Inhabited

/-- A route tree. -/
inductive Tree where
  | leaf (e : Endpoint)
  | seq (q : Qualifier) (below : Tree)
  | alt (left right : Tree)
  | empty
  | alien (a : Alien)
deriving Repr, Inhabited

/-- An endpoint with the qualifiers above it, outermost first. -/
structure Route where
  qualifiers : List Qualifier
  endpoint : Endpoint
deriving Repr, Inhabited

/-! ## Equality -/

namespace Qualifier

/-- Equality of qualifiers. -/
def same : Qualifier → Qualifier → Bool
  | .segment a, .segment b => a == b
  | .capture a t d, .capture b u e => a == b && t.same u && d == e
  | .captureAll a t d, .captureAll b u e => a == b && t.same u && d == e
  | .query a t r d, .query b u s e => a == b && t.same u && r == s && d == e
  | .queries a t d, .queries b u e => a == b && t.same u && d == e
  | .flag a d, .flag b e => a == b && d == e
  | .header a t r d, .header b u s e => a == b && t.same u && r == s && d == e
  | .body t cs d, .body u ds e => t.same u && cs == ds && d == e
  | .basic a r, .basic b s => a == b && r == s
  | .bearer a f, .bearer b g => a == b && f == g
  | .summary a, .summary b => a == b
  | .description a, .description b => a == b
  | .alien a, .alien b => a.written.looseEq b.written
  | _, _ => false

end Qualifier

/-- Equality of response headers. -/
def ResponseHeader.same (a b : ResponseHeader) : Bool :=
  a.name == b.name && a.ty.same b.ty && a.description == b.description

/-- Equality of declared responses. -/
def Respond.same (a b : Respond) : Bool :=
  a.status == b.status && a.description == b.description && a.returns.same b.returns &&
    a.contentTypes == b.contentTypes

/-- Equality of endpoints. -/
def Endpoint.same (a b : Endpoint) : Bool :=
  a.method == b.method && a.returns.same b.returns && a.status == b.status &&
    a.contentTypes == b.contentTypes && agree ResponseHeader.same a.headers b.headers &&
    a.description == b.description && a.tags == b.tags && a.summary == b.summary &&
    agree Respond.same a.responses b.responses

/-- Equality of routes. -/
def Route.same (a b : Route) : Bool :=
  agree Qualifier.same a.qualifiers b.qualifiers && a.endpoint.same b.endpoint

/-! ## Routes -/

namespace Tree

/-- The routes below a chain of qualifiers, from left to right. -/
def routes (above : List Qualifier) : Tree → Except Fault (List Route)
  | .leaf e => .ok [⟨above, e⟩]
  | .seq q t => routes (above ++ [q]) t
  | .alt l r => do
    let ls ← routes above l
    let rs ← routes above r
    return ls ++ rs
  | .empty => .ok []
  | .alien a => .error (.notATree a.shown)

/-- The routes of a tree, from left to right. -/
def flatten (t : Tree) : Except Fault (List Route) := t.routes []

/-- A chain of qualifiers on a tree. -/
def under (qs : List Qualifier) (t : Tree) : Tree := qs.foldr .seq t

end Tree
end ApiTree
