import ApiTree.Route.Method
import ApiTree.Schema.Reference
import ApiTree.Text.Case

/-!
# ApiTree.Document.Basic

Documents that describe an API in the OpenAPI 3.0 format, as values.  Schemas
stay JSON; everything else has a type of its own.

Equality of the parts that are compared ignores the order of tables and takes
schemas as JSON values.
-/

namespace ApiTree

/-- Whom to ask about an API. -/
structure Contact where
  name : Option String := none
  url : Option String := none
  email : Option String := none
deriving DecidableEq, Repr, Inhabited

/-- The terms under which an API may be used. -/
structure License where
  name : String
  url : Option String := none
deriving DecidableEq, Repr, Inhabited

/-- What an API is. -/
structure Info where
  title : String := ""
  version : String := ""
  description : Option String := none
  termsOfService : Option String := none
  contact : Option Contact := none
  license : Option License := none
deriving DecidableEq, Repr, Inhabited

/-- Where an API is served. -/
structure Server where
  url : String
  description : Option String := none
deriving DecidableEq, Repr, Inhabited

/-- A label for operations. -/
structure Tag where
  name : String
  description : Option String := none
deriving DecidableEq, Repr, Inhabited

/-- A way in which callers prove who they are. -/
structure SecurityScheme where
  type : String
  scheme : Option String := none
  bearerFormat : Option String := none
  description : Option String := none
  name : Option String := none
  location : Option String := none
deriving DecidableEq, Repr, Inhabited

/-- The form of a content. -/
structure MediaType where
  schema : Option Schema := none
deriving Repr, Inhabited

/-- A header that a response carries. -/
structure HeaderObject where
  description : Option String := none
  schema : Option Schema := none
deriving Repr, Inhabited

/-- A response. -/
structure Response where
  description : String := ""
  content : Table String MediaType := []
  headers : Table String HeaderObject := []
deriving Repr, Inhabited

/-- The body of a request. -/
structure RequestBody where
  description : Option String := none
  content : Table String MediaType := []
  required : Option Bool := none
deriving Repr, Inhabited

/-- A parameter of an operation. -/
structure Parameter where
  name : String
  location : String
  required : Option Bool := none
  description : Option String := none
  schema : Option Schema := none
  allowEmptyValue : Option Bool := none
deriving Repr, Inhabited

/-- Names of security schemes with the scopes that are asked for. -/
abbrev SecurityRequirement := Table String (List String)

/-- An operation: what can be done at a path with a method. -/
structure Operation where
  tags : List String := []
  summary : Option String := none
  description : Option String := none
  operationId : Option String := none
  parameters : List Parameter := []
  requestBody : Option RequestBody := none
  /-- Responses by status. -/
  responses : Table String Response := []
  security : List SecurityRequirement := []
deriving Repr, Inhabited

/-- The operations of a path. -/
structure PathItem where
  get : Option Operation := none
  put : Option Operation := none
  post : Option Operation := none
  delete : Option Operation := none
  options : Option Operation := none
  head : Option Operation := none
  patch : Option Operation := none
  trace : Option Operation := none
deriving Repr, Inhabited

/-- The parts that others refer to. -/
structure Components where
  schemas : Table String Schema := []
  securitySchemes : Table String SecurityScheme := []
deriving Repr, Inhabited

/-- The description of an API. -/
structure Document where
  openapi : String := "3.0.0"
  info : Info := {}
  servers : List Server := []
  paths : Table String PathItem := []
  components : Components := {}
  security : List SecurityRequirement := []
  tags : List Tag := []
deriving Repr, Inhabited

/-! ## Equality -/

/-- Equality of tables whatever the order. -/
def Table.same {α : Type} (f : α → α → Bool) (a b : Table String α) : Bool :=
  a.length == b.length && a.all fun (k, v) => (b.find? k).any (f v)

/-- Equality of schemas as JSON values. -/
def Schema.same (a b : Schema) : Bool := (Json.obj a).looseEq (.obj b)

/-- Equality of optional schemas. -/
def Schema.sameOption : Option Schema → Option Schema → Bool
  | none, none => true
  | some a, some b => Schema.same a b
  | _, _ => false

/-- Equality of contents. -/
def MediaType.same (a b : MediaType) : Bool := Schema.sameOption a.schema b.schema

/-- Equality of headers. -/
def HeaderObject.same (a b : HeaderObject) : Bool :=
  a.description == b.description && Schema.sameOption a.schema b.schema

/-- Equality of responses. -/
def Response.same (a b : Response) : Bool :=
  a.description == b.description && Table.same MediaType.same a.content b.content &&
    Table.same HeaderObject.same a.headers b.headers

/-- Equality of security requirements. -/
def SecurityRequirement.same (a b : SecurityRequirement) : Bool :=
  Table.same (fun x y => x == y) a b

/-! ## Operations of a document -/

namespace PathItem

/-- The operation of a method. -/
def operation (p : PathItem) : Method → Option Operation
  | .get => p.get
  | .put => p.put
  | .post => p.post
  | .delete => p.delete
  | .options => p.options
  | .head => p.head
  | .patch => p.patch
  | .trace => p.trace

/-- The path with the operation of a method set. -/
def set (p : PathItem) (m : Method) (op : Operation) : PathItem :=
  match m with
  | .get => { p with get := some op }
  | .put => { p with put := some op }
  | .post => { p with post := some op }
  | .delete => { p with delete := some op }
  | .options => { p with options := some op }
  | .head => { p with head := some op }
  | .patch => { p with patch := some op }
  | .trace => { p with trace := some op }

/-- The path with the given operations. -/
def ofOperations (ops : Table Method Operation) : PathItem :=
  ops.foldl (fun p (m, op) => p.set m op) {}

/-- The operations that are there, in the order of methods. -/
def operations (p : PathItem) : Table Method Operation :=
  Method.all.filterMap fun m => (p.operation m).map (m, ·)

@[simp] theorem operation_set_self (p : PathItem) (m : Method) (op : Operation) :
    (p.set m op).operation m = some op := by cases m <;> rfl

theorem operation_set_of_ne (p : PathItem) {m n : Method} (op : Operation) (h : n ≠ m) :
    (p.set m op).operation n = p.operation n := by
  cases m <;> cases n <;> first | rfl | exact absurd rfl h

/-- What a name leads to in a path item. -/
inductive Member where
  /-- Nothing: a method without an operation, or a member that is not set. -/
  | absent
  | operation (op : Operation)
  /-- What all path items have under the name; `kind` is its type. -/
  | common (name kind : String)
deriving Repr, Inhabited

/-- What a method leads to, by the operation that is there. -/
def Member.ofOperation (op : Option Operation) : Member := op.elim .absent .operation

@[simp] theorem Member.ofOperation_none : ofOperation none = .absent := rfl

@[simp] theorem Member.ofOperation_some (op : Operation) : ofOperation (some op) = .operation op :=
  rfl

/-- A method leads to an operation exactly if the operation is there. -/
@[simp] theorem Member.ofOperation_eq_operation_iff {o : Option Operation} {op : Operation} :
    ofOperation o = .operation op ↔ o = some op := by
  cases o <;> simp [ofOperation]

/-- What path items take over from the models that they are. -/
class Base where
  /-- What is under a name, if there is such a member: something of a kind, or nothing. -/
  inherited : String → Option (Option String)
  /-- What stops a copy of a path item in which an operation stands in the place of a member. -/
  hindrance : String → Option Fault

/-- What path items declare beside their operations, with its kind. -/
def declared : Table String String :=
  [("operations", "method"), ("with_operation", "method"), ("_omit_empty", "method"),
    ("always_emit", "frozenset"), ("model_config", "dict")]

section Members

variable [Base]

/-- What all path items have under a name. -/
def common? (name : String) : Option Member :=
  match declared.find? name with
  | some kind => some (.common name kind)
  | none => (Base.inherited name).map fun kind => kind.elim .absent (.common name)

/-- What a name leads to: an operation where it names a method, and otherwise what all path items
have under it.  Without that the name is a fault. -/
def lookup (p : PathItem) (name : String) : Except Fault Member :=
  match Method.ofName? name with
  | some m => .ok (.ofOperation (p.operation m))
  | none =>
    match common? name with
    | some x => .ok x
    | none => .error (.noMember "PathItem" name)

/-- What stops a further change of a path item in which an operation stands in the place of a
member. -/
def hindrance? (name : String) : Option Fault :=
  if name = "with_operation" then some (.notCallable "Operation") else Base.hindrance name

end Members

/-- The members that models have by their documentation. -/
@[reducible] def Base.documented : Base where
  inherited name :=
    if name = "model_extra" then some none
    else if name = "model_fields_set" then some (some "set")
    else if ["model_fields", "model_computed_fields"].contains name then some (some "dict")
    else if ["model_construct", "model_copy", "model_dump", "model_dump_json", "model_json_schema",
        "model_parametrized_name", "model_post_init", "model_rebuild", "model_validate",
        "model_validate_json", "model_validate_strings", "construct", "copy", "dict", "from_orm",
        "json", "parse_file", "parse_obj", "parse_raw", "schema", "schema_json",
        "update_forward_refs", "validate"].contains name then some (some "method")
    else none
  hindrance name :=
    if name = "model_copy" then some (.notCallable "Operation")
    else if name = "model_config" then some (.noMember "Operation" "get")
    else none

end PathItem

namespace Document

/-- What a document has at a path under the name of a method in any case.  A path that is not there
has nothing. -/
def operation [PathItem.Base] (d : Document) (path method : String) :
    Except Fault PathItem.Member :=
  match d.paths.find? path with
  | none => .ok .absent
  | some item => item.lookup (Case.lower method)

end Document
end ApiTree
