import ApiTree.Route.Path

/-!
# ApiTree.Route.Node

Building route trees from parts.  A part is a qualifier, a chain of them or a
tree, and `/` and `|` put parts together.  The plain constructors check
nothing, so a part may also hold what is no part at all; such a thing is an
alien in the tree that comes out.
-/

namespace ApiTree

/-- A part of a route tree, or something else. -/
inductive Node where
  | qualifier (q : Qualifier)
  | chain (parts : List Node)
  | leaf (e : Endpoint)
  | seq (q below : Node)
  | alt (left right : Node)
  | empty
  | raw (v : Json)
deriving Repr, Inhabited

namespace Node

/-- The word for the kind of a part. -/
def kind : Node → String
  | .qualifier q => match q with
    | .segment _ => "Segment"
    | .capture .. => "Capture"
    | .captureAll .. => "CaptureAll"
    | .query .. => "QueryParam"
    | .queries .. => "QueryParams"
    | .flag .. => "QueryFlag"
    | .header .. => "Header"
    | .body .. => "ReqBody"
    | .basic .. => "BasicAuth"
    | .bearer .. => "BearerAuth"
    | .summary _ => "Summary"
    | .description _ => "Description"
    | .alien _ => "object"
  | .chain _ => "Prefix"
  | .leaf _ => "Leaf"
  | .seq .. => "Seq"
  | .alt .. => "Alt"
  | .empty => "Empty"
  | .raw v => v.kind

/-- Whether the part is a tree. -/
def isTree : Node → Bool
  | .leaf _ | .seq .. | .alt .. | .empty => true
  | _ => false

/-- The parts that stand above a tree. -/
def links? : Node → Option (List Node)
  | .qualifier q => some [.qualifier q]
  | .chain parts => some parts
  | _ => none

/-- `a / b`: a chain on a tree, or a longer chain. -/
def above (a b : Node) : Except Fault Node :=
  let refused : Except Fault Node := .error (.badOperands "/" a.kind b.kind)
  match a.links? with
  | none => refused
  | some links =>
    if b.isTree then .ok (links.foldr .seq b)
    else
      match b.links? with
      | some more => .ok (.chain (links ++ more))
      | none => refused

/-- `a | b`: two trees side by side. -/
def beside (a b : Node) : Except Fault Node :=
  if a.isTree && b.isTree then .ok (.alt a b) else .error (.badOperands "|" a.kind b.kind)

/-! ## Equality -/

mutual

/-- Equality of parts. -/
def same : Node → Node → Bool
  | .qualifier p, n => match n with
    | .qualifier q => p.same q
    | _ => false
  | .chain as, n => match n with
    | .chain bs => sameList as bs
    | _ => false
  | .leaf e, n => match n with
    | .leaf f => e.same f
    | _ => false
  | .seq a b, n => match n with
    | .seq c d => same a c && same b d
    | _ => false
  | .alt a b, n => match n with
    | .alt c d => same a c && same b d
    | _ => false
  | .empty, n => match n with
    | .empty => true
    | _ => false
  | .raw v, n => match n with
    | .raw w => v.looseEq w
    | _ => false

/-- Equality of rows of parts. -/
def sameList : List Node → List Node → Bool
  | [], [] => true
  | a :: as, b :: bs => same a b && sameList as bs
  | _, _ => false

end

/-! ## Written forms -/

/-- A text or null. -/
def optional : Option String → Json
  | some s => .str s
  | none => .null

/-- The identity of a type, or null for no content. -/
def typeJson (c : Catalog) : Ty → Json
  | .nothing => .null
  | t => .str (c.identity t)

/-- Texts as a value. -/
def textsJson (ss : List String) : Json := .arr (ss.map .str)

/-- The written form of a qualifier. -/
def qualifierJson (c : Catalog) (q : Qualifier) : Json :=
  let form (k : String) (ms : Json.Members) : Json := .obj (("k", .str k) :: ms)
  let typed (k name : String) (t : Ty) (d : Option String) (ms : Json.Members) : Json :=
    form k (("name", .str name) :: ("type", typeJson c t) :: ("description", optional d) :: ms)
  match q with
  | .segment s => form "segment" [("literal", .str s)]
  | .capture n t d => typed "capture" n t d []
  | .captureAll n t d => typed "capture_all" n t d []
  | .query n t r d => typed "query" n t d [("required", .bool r)]
  | .queries n t d => typed "queries" n t d []
  | .flag n d => form "flag" [("name", .str n), ("description", optional d)]
  | .header n t r d => typed "header" n t d [("required", .bool r)]
  | .body t cs d =>
    form "body"
      [("type", typeJson c t), ("content_types", textsJson cs), ("description", optional d)]
  | .basic n r => form "basic" [("name", .str n), ("realm", .str r)]
  | .bearer n f => form "bearer" [("name", .str n), ("bearer_format", optional f)]
  | .summary t => form "summary" [("text", .str t)]
  | .description t => form "description" [("text", .str t)]
  | .alien a => a.written

/-- The members of the written form of an endpoint. -/
def endpointMembers (c : Catalog) (e : Endpoint) : Json.Members :=
  [("method", .str e.method.name), ("returns", typeJson c e.returns), ("status", .int e.status),
    ("content_types", textsJson e.contentTypes),
    ("headers", .arr (e.headers.map fun h => .obj
      [("name", .str h.name), ("type", typeJson c h.ty),
        ("description", optional h.description)])),
    ("description", .str e.description), ("tags", textsJson e.tags),
    ("summary", optional e.summary),
    ("responses", .arr (e.responses.map fun r => .obj
      [("status", .int r.status), ("description", .str r.description),
        ("returns", typeJson c r.returns), ("content_types", textsJson r.contentTypes)]))]

mutual

/-- The written form of a part. -/
def written (c : Catalog) : Node → Json
  | .qualifier q => qualifierJson c q
  | .chain parts => .obj [("k", .str "prefix"), ("of", .arr (writtenList c parts))]
  | .leaf e => .obj (("k", .str "leaf") :: endpointMembers c e)
  | .seq a b => .obj [("k", .str "seq"), ("of", .arr [written c a, written c b])]
  | .alt a b => .obj [("k", .str "alt"), ("of", .arr [written c a, written c b])]
  | .empty => .obj [("k", .str "empty")]
  | .raw v => .obj [("k", .str "raw"), ("value", v)]

/-- The written forms of parts. -/
def writtenList (c : Catalog) : List Node → List Json
  | [] => []
  | n :: ns => written c n :: writtenList c ns

end

/-! ## Shown forms -/

/-- A row in round brackets, as messages show it. -/
def rowText (items : List String) : String :=
  match items with
  | [x] => "(" ++ x ++ ",)"
  | xs => "(" ++ ", ".intercalate xs ++ ")"

/-- A text or its absence, as messages show it. -/
def optionalText (s : Option String) : String := (s.map quoted).getD "None"

/-- A truth value, as messages show it. -/
def boolText (b : Bool) : String := if b then "True" else "False"

/-- Texts in a row, as messages show them. -/
def textsText (ss : List String) : String := rowText (ss.map quoted)

/-- A type as messages show it: names of classes are marked. -/
def typeText (c : Catalog) (t : Ty) : String :=
  let marked (word name : String) : String := "<" ++ word ++ " " ++ quoted name ++ ">"
  match t with
  | .scalar .any => c.identity t
  | .scalar _ | .bare _ => marked "class" (c.identity t)
  | .cls i =>
    match c.form i with
    | .enum .. => marked "enum" (c.decl i).name
    | _ => marked "class" (c.identity t)
  | _ => c.identity t

/-- A qualifier as messages show it. -/
def qualifierText (c : Catalog) (q : Qualifier) : String :=
  let args : List String := match q with
    | .segment s => ["literal=" ++ quoted s]
    | .capture n t d | .captureAll n t d | .queries n t d =>
      ["name=" ++ quoted n, "type=" ++ typeText c t, "description=" ++ optionalText d]
    | .query n t r d | .header n t r d =>
      ["name=" ++ quoted n, "type=" ++ typeText c t, "required=" ++ boolText r,
        "description=" ++ optionalText d]
    | .flag n d => ["name=" ++ quoted n, "description=" ++ optionalText d]
    | .body t cs d =>
      ["type=" ++ typeText c t, "content_types=" ++ textsText cs,
        "description=" ++ optionalText d]
    | .basic n r => ["name=" ++ quoted n, "realm=" ++ quoted r]
    | .bearer n f => ["name=" ++ quoted n, "bearer_format=" ++ optionalText f]
    | .summary t | .description t => ["text=" ++ quoted t]
    | .alien a => [a.shown]
  called (Node.qualifier q).kind args

/-- An endpoint as messages show it. -/
def endpointText (c : Catalog) (e : Endpoint) : String :=
  let header (h : ResponseHeader) : String := called "ResponseHeader"
    ["name=" ++ quoted h.name, "type=" ++ typeText c h.ty,
      "description=" ++ optionalText h.description]
  let respond (r : Respond) : String := called "Respond"
    ["status=" ++ toString r.status, "description=" ++ quoted r.description,
      "returns=" ++ typeText c r.returns, "content_types=" ++ textsText r.contentTypes]
  called "Endpoint"
    ["method=" ++ quoted e.method.name, "returns=" ++ typeText c e.returns,
      "status=" ++ toString e.status, "content_types=" ++ textsText e.contentTypes,
      "headers=" ++ rowText (e.headers.map header), "description=" ++ quoted e.description,
      "tags=" ++ textsText e.tags, "summary=" ++ optionalText e.summary,
      "responses=" ++ rowText (e.responses.map respond)]

mutual

/-- A part as messages show it. -/
def shown (c : Catalog) : Node → String
  | .qualifier q => qualifierText c q
  | .chain parts => called "Prefix" ["qualifiers=" ++ rowText (shownList c parts)]
  | .leaf e => called "Leaf" ["endpoint=" ++ endpointText c e]
  | .seq a b => called "Seq" ["qualifier=" ++ shown c a, "subtree=" ++ shown c b]
  | .alt a b => called "Alt" ["left=" ++ shown c a, "right=" ++ shown c b]
  | .empty => called "Empty" []
  | .raw v => v.shown

/-- Parts as messages show them. -/
def shownList (c : Catalog) : List Node → List String
  | [] => []
  | n :: ns => shown c n :: shownList c ns

end

/-! ## Trees -/

/-- The part as an alien. -/
def alien (c : Catalog) (n : Node) : Alien := ⟨n.written c, n.shown c⟩

/-- The qualifier that a part is. -/
def toQualifier (c : Catalog) : Node → Qualifier
  | .qualifier q => q
  | n => .alien (n.alien c)

/-- The tree that a part is. -/
def toTree (c : Catalog) : Node → Tree
  | .leaf e => .leaf e
  | .seq q t => .seq (q.toQualifier c) (t.toTree c)
  | .alt l r => .alt (l.toTree c) (r.toTree c)
  | .empty => .empty
  | n => .alien (n.alien c)

end Node
end ApiTree
