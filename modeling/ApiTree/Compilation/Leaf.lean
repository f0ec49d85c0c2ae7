import ApiTree.Compilation.Merge
import ApiTree.Route.Path
import ApiTree.Schema.Registry

/-!
# ApiTree.Compilation.Leaf

The operation of one route.  Qualifiers are read from the outermost one in:
captures, parameters and headers become parameters, the body a request body,
and texts further in replace those further out.

Beside the declared responses an operation has a response 400 that names what
can be invalid, and a response 404 that names what may not be found.  Both
give way to a declared response for their status.
-/

namespace ApiTree

/-- What compiling a tree collects: component schemas and security schemes. -/
structure Collected where
  registry : Registry := {}
  securitySchemes : Table String SecurityScheme := []
deriving Repr, Inhabited

/-- A step of compiling a tree. -/
abbrev Compiling := StateT Collected (Except Fault)

namespace Compiling

/-- Runs an operation on the registry. -/
def registering {α : Type} (m : Registering α) : Compiling α := do
  let s ← get
  match m.run.run s.registry with
  | (.ok a, registry) =>
    set { s with registry }
    return a
  | (.error f, _) => throw f

/-- Stops with a conflict. -/
def conflict {α : Type} (identity : String) (cause : ConflictCause) : Compiling α :=
  throw (.conflict ⟨identity, cause⟩)

end Compiling

open Compiling

/-- What the qualifiers of a route have added so far. -/
structure Gathered where
  parameters : List Parameter := []
  body : Option RequestBody := none
  security : List SecurityRequirement := []
  summary : Option String := none
  description : Option String := none
  /-- What a request can get wrong. -/
  invalid : List String := []
  /-- Captures that may name nothing. -/
  notFound : List String := []
deriving Repr, Inhabited

/-! ## What a qualifier adds -/

/-- The schema of an array of items. -/
def arraySchema (items : Schema) : Schema := [("type", .str "array"), ("items", .obj items)]

/-- The schema of a parameter; a repeated parameter is an array. -/
def parameterSchema (c : Catalog) (t : Ty) (repeated : Bool) : Compiling Schema := do
  let s ← registering (Registry.paramSchemaOf c t)
  return if repeated then arraySchema s else s

/-- A content of a schema under each content type. -/
def contentUnder (contentTypes : List String) (schema : Schema) : Table String MediaType :=
  Table.ofList (contentTypes.map fun ct => (ct, ⟨some schema⟩))

namespace Qualifier

/-- The schema of what a qualifier adds; empty for one that adds nothing with a
schema. -/
def schema (c : Catalog) : Qualifier → Compiling Schema
  | .capture _ t _ | .query _ t _ _ | .header _ t _ _ => parameterSchema c t false
  | .captureAll _ t _ | .queries _ t _ => parameterSchema c t true
  | .flag .. => return [("type", .str "boolean")]
  | .body t _ _ => registering (Registry.schemaOf c t)
  | _ => return []

/-- The parameter that a qualifier adds. -/
def parameter? (schema : Schema) : Qualifier → Option Parameter
  | .capture name _ d | .captureAll name _ d =>
    some
      { name, location := "path", required := some true, description := d
        schema := some schema }
  | .query name _ required d =>
    some
      { name, location := "query", required := some required, description := d
        schema := some schema }
  | .queries name _ d =>
    some
      { name, location := "query", required := some false, description := d
        schema := some schema }
  | .flag name d =>
    some
      { name, location := "query", required := some false, description := d
        schema := some schema, allowEmptyValue := some true }
  | .header name _ required d =>
    some
      { name, location := "header", required := some required, description := d
        schema := some schema }
  | _ => none

/-- The body that a qualifier adds. -/
def body? (schema : Schema) : Qualifier → Option RequestBody
  | .body _ contentTypes d =>
    some { description := d, content := contentUnder contentTypes schema, required := some true }
  | _ => none

/-- The scheme that a qualifier asks for. -/
def scheme? : Qualifier → Option (String × SecurityScheme)
  | .basic name realm =>
    some (name,
      { type := "http", scheme := some "basic"
        description := if realm.isEmpty then none else some realm })
  | .bearer name format =>
    some (name, { type := "http", scheme := some "bearer", bearerFormat := format })
  | _ => none

/-- The summary that a qualifier gives. -/
def summary? : Qualifier → Option String
  | .summary s => some s
  | _ => none

/-- The description that a qualifier gives. -/
def description? : Qualifier → Option String
  | .description s => some s
  | _ => none

/-- What a request can get wrong for a qualifier. -/
def invalid? : Qualifier → Option String
  | .query name t required _ | .header name t required _ =>
    if required && t.decodeCanFail then some name else none
  | .body .. => some "body"
  | _ => none

/-- The capture of a qualifier, if it may name nothing. -/
def missing? : Qualifier → Option String
  | .capture name t _ | .captureAll name t _ => if t.decodeCanFail then some name else none
  | _ => none

end Qualifier

/-- What is gathered after one more qualifier, whose schema is given.  Texts
further in replace those further out. -/
def Gathered.adding (g : Gathered) (q : Qualifier) (schema : Schema) : Gathered where
  parameters := g.parameters ++ (q.parameter? schema).toList
  body := (q.body? schema).or g.body
  security := g.security ++ q.scheme?.toList.map fun (name, _) => [(name, [])]
  summary := q.summary?.or g.summary
  description := q.description?.or g.description
  invalid := g.invalid ++ q.invalid?.toList
  notFound := g.notFound ++ q.missing?.toList

/-- Declares a security scheme, which may be declared again in the same way. -/
def declareScheme (name : String) (scheme : SecurityScheme) : Compiling Unit := do
  let s ← get
  if (s.securitySchemes.find? name).any (· != scheme) then
    conflict name .securitySettings
  else set { s with securitySchemes := s.securitySchemes.put name scheme }

/-- Lets a qualifier of the route `title` in: there is one body at most, and a
security scheme is declared. -/
def letIn (title : String) (g : Gathered) (q : Qualifier) : Compiling Unit :=
  match q with
  | .body .. => if g.body.isSome then conflict title .bodyTwice else return
  | .alien a => throw (.unknownQualifier a.shown)
  | q =>
    match q.scheme? with
    | some (name, scheme) => declareScheme name scheme
    | none => return

/-- Reads one qualifier of the route `title`. -/
def gather (c : Catalog) (title : String) (g : Gathered) (q : Qualifier) : Compiling Gathered := do
  letIn title g q
  let schema ← q.schema c
  return g.adding q schema

/-! ## Responses -/

/-- A content of a type under each content type; no content for no type. -/
def contentOf (c : Catalog) (t : Ty) (contentTypes : List String) :
    Compiling (Table String MediaType) :=
  match t with
  | .nothing => return []
  | t => return contentUnder contentTypes (← registering (Registry.schemaOf c t))

/-- A name between backticks. -/
def coded (name : String) : String := "\x60" ++ name ++ "\x60"

/-- Names between backticks, any of which may be meant. -/
def orList (names : List String) : String := " or ".intercalate (names.map coded)

/-- The headers of a response. -/
def headersOf (c : Catalog) : List ResponseHeader → Compiling (Table String HeaderObject)
  | [] => return []
  | h :: hs => do
    let schema ← parameterSchema c h.ty false
    let rest ← headersOf c hs
    return (h.name, { description := h.description, schema := some schema }) :: rest

/-- The responses that are declared one by one. -/
def declaredResponses (c : Catalog) : List Respond → Compiling (List (String × Response))
  | [] => return []
  | r :: rs => do
    let content ← contentOf c r.returns r.contentTypes
    let rest ← declaredResponses c rs
    return (toString r.status, { description := r.description, content }) :: rest

/-- The responses of an endpoint: the one of its status, those inferred from
the qualifiers above it, and those declared one by one. -/
def responsesOf (c : Catalog) (e : Endpoint) (g : Gathered) :
    Compiling (Table String Response) := do
  let content ← contentOf c e.returns e.contentTypes
  let headers ← headersOf c e.headers
  let declared ← declaredResponses c e.responses
  let responses : Table String Response :=
    [(toString e.status, { description := "", content, headers := Table.ofList headers })]
  let responses :=
    if g.invalid.isEmpty then responses
    else responses.putNew "400" { description := "Invalid " ++ orList g.invalid }
  let responses :=
    if g.notFound.isEmpty then responses
    else responses.putNew "404" { description := orList g.notFound ++ " not found" }
  return declared.foldl (fun t (k, r) => t.put k r) responses

/-- The first of two texts that is not empty or absent; an absent second text
stays absent. -/
def textOr (s : String) (usual : Option String) : Option String :=
  if s.isEmpty then usual else some s

/-! ## Operations -/

/-- The first parameter whose key an earlier one has. -/
def declaredTwice? (seen : List (String × String)) : List Parameter → Option Parameter
  | [] => none
  | p :: ps => if seen.contains p.key then some p else declaredTwice? (p.key :: seen) ps

/-- The operation of an endpoint with the given responses, below what was gathered. -/
def Gathered.operation (g : Gathered) (e : Endpoint) (responses : Table String Response) :
    Operation where
  tags := e.tags
  summary := e.summary.or g.summary
  description := textOr e.description g.description
  parameters := g.parameters
  requestBody := g.body
  responses
  security := g.security

/-- The operation of a route. -/
def operationOf (c : Catalog) (r : Route) : Compiling Operation := do
  let g ← r.qualifiers.foldlM (gather c r.title) {}
  match declaredTwice? [] g.parameters with
  | some p => conflict r.title (.parameterTwice p.location p.name)
  | none => return g.operation r.endpoint (← responsesOf c r.endpoint g)

/-- What a route compiles to. -/
def materialize (c : Catalog) (r : Route) : Compiling Partial := do
  let op ← operationOf c r
  return [(r.key, ⟨r.display, captureNames r.qualifiers, [(r.endpoint.method, op)]⟩)]

end ApiTree
