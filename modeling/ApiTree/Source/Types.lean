import ApiTree.Number.Numeral
import ApiTree.Shape.Flaw

/-!
# ApiTree.Source.Types

Reading types and their declarations from JSON.  A type is written as its name
or as an object with one member; declarations come in order and may refer to
later ones by a forward name.  Reading keeps a scope: the names bound so far,
and the catalogue that is being filled.
-/

namespace ApiTree

/-- A generic declaration: its description and the names bound before it. -/
structure Template where
  description : Json
  names : Table String Nat
deriving Inhabited

/-- What reading has come to know. -/
structure Scope where
  catalog : Catalog := []
  names : Table String Nat := []
  /-- The last binding of every name, also of those not reached yet. -/
  forward : Table String Nat := []
  templates : Table Nat Template := []
  /-- The entries of generic declarations with an argument. -/
  applied : List (Nat × Ty × Nat) := []
deriving Inhabited

/-- Reading in a scope. -/
abbrev Reading := StateT Scope (Except Fault)

namespace Source

/-- Fails with what cannot be read. -/
def unreadable {α : Type} (what : String) : Reading α := throw (.unreadable what)

/-- The member of an object; null if there is none. -/
def member (j : Json) (name : String) : Json := (j.get? name).getD .null

/-- The items of an array; none of anything else. -/
def items : Json → List Json
  | .arr xs => xs
  | _ => []

/-- The text of a value; empty for anything else. -/
def text : Json → String
  | .str s => s
  | _ => ""

/-- The text of a value, if it is one. -/
def text? : Json → Option String
  | .str s => some s
  | _ => none

/-- The texts in an array. -/
def texts (j : Json) : List String := (items j).map text

/-- The number of a member, if there is one. -/
def number? (j : Json) (name : String) : Option Number := (member j name).toNumber?

/-! ## Notes -/

/-- Reads what is said about a field. -/
def fieldSpec (j : Json) : FieldSpec :=
  let limit (name : String) (f : Number → Limit) : List Limit := ((number? j name).map f).toList
  { limits :=
      limit "gt" .gt ++ limit "ge" .ge ++ limit "lt" .lt ++ limit "le" .le ++
        limit "multiple_of" .multipleOf ++ limit "min_length" .minLength ++
        limit "max_length" .maxLength ++ ((text? (member j "pattern")).map Limit.pattern).toList
    title := text? (member j "title")
    description := text? (member j "description")
    discriminator := text? (member j "discriminator")
    wireName := text? (member j "alias") }

/-- Reads a note. -/
def note : Json → Reading Note
  | .str s => pure (.text s)
  | .obj [(key, v)] =>
    match key, v.toNumber? with
    | "interval", _ =>
      pure (.interval (number? v "gt") (number? v "ge") (number? v "lt") (number? v "le"))
    | "field", _ => pure (.field (fieldSpec v))
    | "gt", some n => pure (.limit (.gt n))
    | "ge", some n => pure (.limit (.ge n))
    | "lt", some n => pure (.limit (.lt n))
    | "le", some n => pure (.limit (.le n))
    | "multiple_of", some n => pure (.limit (.multipleOf n))
    | "min_len", some n => pure (.limit (.minLength n))
    | "max_len", some n => pure (.limit (.maxLength n))
    | _, _ => unreadable ("note " ++ key)
  | j => unreadable ("note " ++ j.shown)

/-! ## Types -/

/-- The type of a name that is always known. -/
def wellKnown? : String → Option Ty
  | "int" => some (.scalar .int)
  | "str" => some (.scalar .str)
  | "bool" => some (.scalar .bool)
  | "float" => some (.scalar .float)
  | "bytes" => some (.scalar .bytes)
  | "object" => some (.scalar .object)
  | "list" => some (.bare .list)
  | "dict" => some (.bare .dict)
  | "tuple" => some (.bare .tuple)
  | "set" => some (.bare .set)
  | "None" => some (.scalar .null)
  | "any" => some (.scalar .any)
  | "date" => some (.scalar .date)
  | "datetime" => some (.scalar .datetime)
  | "uuid" => some (.scalar .uuid)
  | "decimal" => some (.scalar .decimal)
  | "Int8" => some (.signed 8)
  | "Int16" => some (.signed 16)
  | "Int32" => some (.signed 32)
  | "Int64" => some (.signed 64)
  | "Word8" => some (.unsigned 8)
  | "Word16" => some (.unsigned 16)
  | "Word32" => some (.unsigned 32)
  | "Word64" => some (.unsigned 64)
  | _ => none

/-- The declaration that a type stands in. -/
structure Inside where
  /-- What the parameter of the declaration stands for. -/
  param : Option Ty := none
  /-- The name of the declaration and its place. -/
  own : Option (String × Nat) := none
deriving Inhabited

/-- Reads a name. -/
def named (inside : Inside) (name : String) : Reading Ty := do
  match (← get).names.find? name with
  | some i => return .cls i
  | none =>
    match wellKnown? name, inside.param with
    | some t, _ => return t
    | none, some t => if name == "T" then return t else unreadable ("type " ++ name)
    | none, none =>
      if name == "T" then return .scalar .any else unreadable ("type " ++ name)

mutual

/-- Whether a type, as it is written, mentions the parameter of a declaration. -/
def mentionsParameter : Json → Bool
  | .str name => name == "T"
  | .arr xs => mentionsInItems xs
  | .obj [("literal", _)] | .obj [("fwd", _)] => false
  | .obj [("annotated", .arr (t :: _))] => mentionsParameter t
  | .obj ms => mentionsInMembers ms
  | _ => false

/-- Whether one of some types mentions the parameter. -/
def mentionsInItems : List Json → Bool
  | [] => false
  | x :: xs => mentionsParameter x || mentionsInItems xs

/-- Whether the type of a member mentions the parameter. -/
def mentionsInMembers : List (String × Json) → Bool
  | [] => false
  | (_, x) :: ms => mentionsParameter x || mentionsInMembers ms

end

/-- A union as it is written; where a parameter was replaced in it and a member
admits every value, so does the union. -/
def absorbing (inside : Inside) (written : Json) (ts : List Ty) (union : Ty) : Ty :=
  if inside.param.isSome && mentionsParameter written &&
      (ts.flatMap Ty.membersInUnion).any (·.same (.scalar .any)) then .scalar .any
  else union

/-- The integer that a value is converted into. -/
def intOf : Json → Except Fault Int
  | .bool b => .ok (if b then 1 else 0)
  | .int n => .ok n
  | .float .nan => .error .integerOfNan
  | .float x => x.truncated?.elim (.error .integerOfInfinity) .ok
  | .str s => (Numeral.int? s.toList).elim (.error (.notAnInteger (quoted s))) .ok
  | j => .error (.noInteger j.kind)

/-- The value of a member of an enumeration. -/
def memberValue (base : Option EnumBase) (j : Json) : Except Fault Json :=
  match base with
  | none => .ok j
  | some .int => Json.int <$> intOf j
  | some .text => .ok (.str j.inText)

/-- Reads a member of an enumeration. -/
def enumMember (base : Option EnumBase) : Json → Except Fault (String × Json)
  | .arr [.str name, j] => do return (name, ← memberValue base j)
  | j => .error (.unreadable ("member " ++ j.shown))

/-- Adds a declaration at the end of the catalogue. -/
def append (d : Decl) : Reading Nat := do
  let s ← get
  set { s with catalog := s.catalog ++ [d] }
  return s.catalog.length

/-- Fills the place of a declaration. -/
def fill (i : Nat) (d : Decl) : Reading Unit :=
  modify fun s => { s with catalog := s.catalog.set i d }

/-- Fails unless values of a declared model or wrapper can be read.  One that refers to
later declarations is not looked at before it is used. -/
def checkDeclared (i : Nat) : Reading Unit := do
  let c := (← get).catalog
  match c.form i with
  | .model .. | .root _ =>
    if (c.reachable (.cls i)).all c.isFilled then liftM (c.checkUse (.cls i))
  | _ => pure ()

/-- The fields of a base declaration with those of its own; a field of a known
name takes the place of the earlier one. -/
def inherit (base own : List FieldDecl) : List FieldDecl :=
  own.foldl (fun fs f =>
    if fs.any (·.name == f.name) then fs.map fun g => if g.name == f.name then f else g
    else fs ++ [f]) base

/-- How a declaration draws samples, if it does. -/
def samples? (j : Json) : Option Samples :=
  (j.get? "samples").map fun vs => ⟨items vs, (member j "raw").truthy⟩

/-- What becomes of undeclared members, by name. -/
def extraOf : Json → Option Extra
  | .str "forbid" => some .forbidden
  | .str "allow" => some .allowed
  | .str "ignore" => some .ignored
  | _ => none

mutual

/-- Reads a type, at most `fuel` levels deep. -/
def typeWithin (inside : Inside) : Nat → Json → Reading Ty
  | 0, _ => unreadable "a type nested this deeply"
  | fuel + 1, j =>
    match j with
    | .null => pure .nothing
    | .str name => named inside name
    | .obj [("annotated", .arr (base :: notes))] => do
      let t ← typeWithin inside fuel base
      return .annotatedWith t (← notes.mapM note)
    | .obj [("fwd", .str name)] => do
      match inside.own.filter (·.1 == name), (← get).forward.find? name with
      | some (_, i), _ | none, some i => return .cls i
      | none, none => named inside name
    | .obj [("literal", .arr vs)] => pure (.literalOf vs)
    | .obj [("apply", .arr [.str name, arg])] => do
      let t ← typeWithin inside fuel arg
      match (← get).names.find? name with
      | some i => appliedWithin fuel i t
      | none => unreadable ("type " ++ name)
    | .obj [(form, .arr written)] => do
      let ts ← written.mapM (typeWithin inside fuel)
      match form, ts with
      | "tuple", _ => return .tuple ts
      | "dict", [k, v] => return .keyed .dict k v
      | "mapping", [k, v] => return .keyed .mapping k.asType v.asType
      | "union", _ => return absorbing inside (.arr written) ts (.unionOf .named ts)
      | "pipe", _ => return absorbing inside (.arr written) ts (.barred ts)
      | _, _ => unreadable ("type " ++ form)
    | .obj [(form, written)] => do
      let t ← typeWithin inside fuel written
      match form with
      | "list" => return .each .list t
      | "set" => return .each .set t
      | "frozenset" => return .each .frozenset t
      | "sequence" => return .each .sequence t.asType
      | "vartuple" => return .each .run t
      | "optional" => return absorbing inside written [t] (.optional t)
      | _ => unreadable ("type " ++ form)
    | j => unreadable ("type " ++ j.shown)

/-- The entry of a generic declaration with an argument, made when it is first
used. -/
def appliedWithin : Nat → Nat → Ty → Reading Ty
  | 0, _, _ => unreadable "a type nested this deeply"
  | fuel + 1, i, arg => do
    let s ← get
    match s.applied.find? fun (j, t, _) => i == j && t.same arg, s.templates.find? i with
    | some (_, _, k), _ => return .cls k
    | none, none => unreadable "an argument of a type that takes none"
    | none, some template =>
      let name := indexed (s.catalog.decl i).name [s.catalog.display arg]
      let k ← append default
      modify fun s => { s with applied := (i, arg, k) :: s.applied, names := template.names }
      let general := s.catalog.decl i
      let inside : Inside := { param := some arg, own := some (general.name, i) }
      let d ← declWithin fuel inside template.description
      fill k { d with
        name, qualname := name, doc := none
        generic := some (general.qualname, s.catalog.display arg) }
      modify fun s' => { s' with names := s.names }
      checkDeclared k
      return .cls k

/-- Reads a field. -/
def fieldWithin : Nat → Inside → Json → Reading FieldDecl
  | 0, _, _ => unreadable "a type nested this deeply"
  | fuel + 1, inside, j => do
    let ty ← typeWithin inside fuel (member j "type")
    return {
      name := text (member j "name")
      ty
      default := j.get? "default"
      spec := ((j.get? "field").map fieldSpec).getD {} }

/-- Reads a declaration. -/
def declWithin : Nat → Inside → Json → Reading Decl
  | 0, _, _ => unreadable "a type nested this deeply"
  | fuel + 1, inside, j => do
    let name := text (member j "name")
    let fields := do (items (member j "fields")).mapM (fieldWithin fuel inside)
    let base? ← match member j "base" with
      | .str base => do
        let s ← get
        pure ((s.names.find? base).map s.catalog.decl)
      | _ => pure none
    let form ← match member j "d" with
      | .str "model" => do
        let own ← fields
        let (fs, extra, title, asText) := match base?.map (·.form) with
          | some (.model fs extra title asText) => (fs, extra, title, asText)
          | _ => ([], .ignored, none, [])
        let config := member j "config"
        pure (Form.model (inherit fs own) ((extraOf (member config "extra")).getD extra)
          ((text? (member config "title")).or title) (asText ++ texts (member j "as_text")))
      | .str "root" => do pure (.root (← typeWithin inside fuel (member j "type")))
      | .str "dataclass" => do pure (.record (← fields))
      | .str "enum" => do
        let base := match member j "mixin" with
          | .str "int" => some EnumBase.int
          | .str "str" => some EnumBase.text
          | _ => none
        let members ← (items (member j "members")).mapM fun m => enumMember base m
        pure (.enum (Form.settledMembers members) base)
      | .str "class" => pure .opaqueClass
      | d => unreadable ("declaration " ++ d.shown)
    return {
      name
      qualname := (text? (member j "qual")).getD name
      doc := text? (member j "doc")
      form
      samples := (samples? j).or (base?.bind (·.samples)) }

end

/-- How deep types are read. -/
def depthLimit : Nat := 100000

/-- Reads a type. -/
def type (j : Json) : Reading Ty := typeWithin {} depthLimit j

/-- The name that a declaration is bound to. -/
def bindingName (j : Json) : String := (text? (member j "bind")).getD (text (member j "name"))

/-- Reads declarations, from place `i` on. -/
def declareFrom (i : Nat) : List Json → Reading Unit
  | [] => pure ()
  | j :: rest => do
    if (member j "generic").truthy then
      modify fun s => { s with templates := s.templates.put i ⟨j, s.names⟩ }
    fill i (← declWithin depthLimit { own := some (text (member j "name"), i) } j)
    modify fun s => { s with names := s.names.put (bindingName j) i }
    checkDeclared i
    declareFrom (i + 1) rest

/-- The scope after reading declarations. -/
def declare (js : List Json) : Except Fault Scope := do
  let forward := Table.ofList (js.zipIdx.map fun (j, i) => (bindingName j, i))
  let start : Scope := { catalog := js.map fun _ => default, forward }
  let ((), scope) ← (declareFrom 0 js).run start
  return scope

end Source
end ApiTree
