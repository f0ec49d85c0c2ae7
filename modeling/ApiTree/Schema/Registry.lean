import ApiTree.Schema.Derivation

/-!
# ApiTree.Schema.Registry

The component schemas of a document, each owned by one type.  A type that asks
for a name which another type owns is a conflict, even if the schemas agree.

A registration that fails may have stored definitions before it failed, so the
operations give back the registry in either case: `Registering` runs on a
registry and ends with a result or a fault, and with the registry as it is
then.
-/

namespace ApiTree

/-- Component schemas by name, the identity of the owner of each name, and the
schemas handed out so far by the identity of their type. -/
structure Registry where
  schemas : Table String Schema := []
  owners : Table String String := []
  usage : Table String Schema := []
deriving Repr, Inhabited

/-- An operation on a registry. -/
abbrev Registering := ExceptT Fault (StateM Registry)

namespace Registry

/-- The components as definitions that references lead to. -/
def definitions (r : Registry) : Table String Json := r.schemas.map fun (n, s) => (n, .obj s)

/-- The component that a reference leads to. -/
def resolve (r : Registry) (ref : String) : Except Fault Json := Reference.follow r.definitions ref

/-- The identity of the owner of a name. -/
def owner (r : Registry) (name : String) : Except Fault String :=
  match r.owners.find? name with
  | some id => .ok id
  | none => .error (.missingKey name)

/-- The registry with a component added. -/
def add (r : Registry) (name identity : String) (schema : Schema) : Registry :=
  { r with owners := r.owners.put name identity, schemas := r.schemas.put name schema }

/-- Stores a component unless its name is taken, and refers to it.  The name
may be taken by the same type, and then keeps its schema. -/
def register (name identity : String) (schema : Schema) : Registering Schema := do
  let r ← get
  match r.owners.find? name with
  | none => set (r.add name identity schema)
  | some owner =>
    if owner != identity then
      throw (.conflict ⟨name, .claimedByBoth owner identity⟩)
  return Reference.schema name

/-- The first name that two types share, as a conflict. -/
def sharedName? (owners : Table String (List String)) : Option Conflict :=
  (List.find? (fun e => 1 < e.2.length) owners).map fun (name, ids) => ⟨name, .claimedBy ids⟩

/-- Stores definitions in order, each for the type of its name; a name of no
type is its own identity. -/
def registerAll (owners : Table String (List String)) : Table String Schema → Registering Unit
  | [] => pure ()
  | (name, schema) :: rest => do
    let identity := (Table.find? owners name).elim name fun ids => ids.headD name
    discard (register name identity schema)
    registerAll owners rest

/-- Stores the definitions that come with the schema of a type, where `owners`
are the named types that were found in the type. -/
def registerDefinitions (owners : Table String (List String)) (definitions : Table String Schema) :
    Registering Unit :=
  match sharedName? owners with
  | some conflict => throw (.conflict conflict)
  | none => registerAll owners definitions

/-- The schema that stands where a value of the type is a body, where `owners`
are the named types that were found in the type.  A declared type is stored as a
component and referred to. -/
def bodySchema (c : Catalog) (owners : Table String (List String)) (t : Ty) :
    Registering Schema := do
  let identity := c.identity t
  match (← get).usage.find? identity with
  | some schema => return schema
  | none =>
    let derived ← ofExcept (c.derive t)
    registerDefinitions owners derived.definitions
    let schema ← match t with
      | .cls i =>
        if c.isNamed t && !derived.schema.has "$ref" then
          register (c.decl i).name identity derived.schema
        else pure derived.schema
      | _ => pure derived.schema
    modify fun r => { r with usage := r.usage.put identity schema }
    return schema

/-- The schema that stands where a value of the type is a body. -/
def schemaOf (c : Catalog) (t : Ty) : Registering Schema := bodySchema c (c.namedTypes t) t

/-- The derived schema with a reference at the top replaced by what it leads
to.  The definition goes if nothing else refers to it. -/
def inPlace (derived : Catalog.Derived) : Catalog.Derived :=
  match Table.find? derived.schema "$ref" with
  | some (.str ref) =>
    match Reference.target? ref with
    | none => derived
    | some name =>
      match derived.definitions.find? name with
      | some schema =>
        let others := derived.definitions.filter (·.1 != name)
        if Reference.occurs ref (.obj schema) ||
            others.any fun e => Reference.occurs ref (.obj e.2) then
          { derived with schema }
        else { schema, definitions := others }
      | none => derived
  | _ => derived

/-- The schema of a parameter of the type, where `owners` are the named types
that were found in the type: a reference at its top gives way to what it leads
to. -/
def parameterSchema (c : Catalog) (owners : Table String (List String)) (t : Ty) :
    Registering Schema := do
  let derived := inPlace (← ofExcept (c.derive t))
  registerDefinitions owners derived.definitions
  return derived.schema

/-- The schema of a parameter of the type. -/
def paramSchemaOf (c : Catalog) (t : Ty) : Registering Schema :=
  parameterSchema c (c.namedTypes t) t

end Registry
end ApiTree
