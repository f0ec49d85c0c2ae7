import ApiTree.Conformance.Check
import ApiTree.Log.Event
import ApiTree.Route.Tree
import ApiTree.Sample.Encoding
import ApiTree.Sample.Generator
import ApiTree.Schema.Registry

/-!
# ApiTree.Conformance.Report

Checking that the types of bodies are encoded as their schemas say.  For each
type samples are drawn, encoded and checked against the schema that a document
would hold, up to the first sample that fails.  A type that fails does not keep
the others from being checked; a fault outside the encoder does.
-/

namespace ApiTree

/-- What came of the samples of a type: how many were checked, the one that is
shown, and what is wrong with it. -/
structure Outcome where
  checked : Nat
  /-- The failing sample, or else the first that is not encoded as null. -/
  sample : Json
  violation : Option Violation
deriving Repr

/-- The outcome for one type. -/
structure Section where
  label : String
  identity : String
  outcome : Outcome
deriving Repr

/-- The outcomes for the types of a tree. -/
structure Report where
  sections : List Section
deriving Repr

/-! ## Types of bodies -/

/-- The type of the request body that a qualifier declares. -/
def Qualifier.bodyType? : Qualifier → Option Ty
  | .body t _ _ => some t
  | _ => none

/-- The types of answers; nothing is no type of an answer. -/
def Endpoint.answerTypes (e : Endpoint) : List Ty :=
  (e.returns :: e.responses.map (·.returns)).filter fun
    | .nothing => false
    | _ => true

/-- The types of request bodies, then those of answers. -/
def Route.bodyTypes (r : Route) : List Ty :=
  r.qualifiers.filterMap (·.bodyType?) ++ r.endpoint.answerTypes

/-- The types of the bodies of a tree, each identity once. -/
def Tree.bodyTypes (c : Catalog) (t : Tree) : Except Fault (List Ty) := do
  let routes ← t.flatten
  return Ty.distinct (fun a b => c.identity a == c.identity b) (routes.flatMap (·.bodyTypes))

/-! ## Checking -/

/-- What a caller brings for some types, by their identity. -/
structure Collaborators (σ : Type) where
  generators : Generators σ := []
  encoders : Encoders := []
  rules : Table String (TextRule (Except Fault)) := []

/-- A type with all that checking it needs. -/
structure Plan (σ : Type) where
  ty : Ty
  generate : Draw σ Value
  encode : Encoder
  rule : Option (TextRule (Except Fault))

namespace Catalog

variable {σ : Type} [RandomSource σ]

/-- Finds what checking a type needs. -/
def plan (c : Catalog) (own : Collaborators σ) (t : Ty) : Except Fault (Plan σ) := do
  let generate ← c.generator own.generators t
  let encode ← c.encoder own.encoders t
  return { ty := t, generate, encode, rule := Table.find? own.rules (c.identity t) }

/-- Finds what checking the types of the bodies of a tree needs. -/
def plans (c : Catalog) (own : Collaborators σ) (t : Tree) : Except Fault (List (Plan σ)) := do
  (← t.bodyTypes c).mapM (c.plan own)

/-- What a value shows, and what is wrong with it: its encoded form, or the value
itself if it cannot be encoded. -/
def judge (c : Catalog) (encode : Encoder) (check : Json → Except Fault (Option Violation))
    (v : Value) : Except Fault (Json × Option Violation) :=
  match encode v with
  | .ok j => do return (j, ← check j)
  | .error f => .ok (.str (v.shown c), some (.here (.encoding f)))

/-- Draws and judges up to `left` more values, after `done` good ones.  `first` is
the first of them that was not encoded as null. -/
def probe (generate : Draw σ Value) (judge : Value → Except Fault (Json × Option Violation)) :
    Nat → Nat → Json → Draw σ Outcome
  | 0, done, first => return ⟨done, first, none⟩
  | left + 1, done, first => do
    let v ← generate
    let (j, violation) ← judge v
    match violation with
    | some _ => return ⟨done + 1, j, violation⟩
    | none =>
      probe generate judge left (done + 1) (match first with
        | .null => j
        | _ => first)

/-- Checks the planned types in order, with the components that their schemas
have brought in so far. -/
def checkPlans (c : Catalog) (samples : Nat) : List (Plan σ) → Registry → Draw σ (List Section)
  | [], _ => return []
  | p :: ps, registry => do
    let (schema, registry) := (Registry.schemaOf c p.ty).run.run registry
    let schema ← schema
    let check (j : Json) := Check.run registry.definitions p.rule j (.obj schema)
    let outcome ← probe p.generate (c.judge p.encode check) samples 0 .null
    let rest ← checkPlans c samples ps registry
    return ⟨c.label p.ty, c.identity p.ty, outcome⟩ :: rest

/-- The number of samples per type, unless another is asked for. -/
def usualSamples : Int := 100

/-- Checks the types of the bodies of a tree, with a number of samples each.
Generators and encoders of all types are found before anything is drawn. -/
def conformance (c : Catalog) (t : Tree) (samples : Int) (own : Collaborators σ) :
    Draw σ Report := do
  if samples < 1 then throw .tooFewSamples
  return ⟨← c.checkPlans samples.toNat (← c.plans own t) {}⟩

end Catalog

/-! ## Reading a report -/

namespace Section

/-- Whether no sample failed. -/
def passed (s : Section) : Bool := s.outcome.violation.isNone

/-- What a failed type is reported as. -/
def failure? (s : Section) : Option String :=
  s.outcome.violation.map fun v =>
    s.label ++ ": sample " ++ toString s.outcome.checked ++ " violates " ++ v.constraint ++
      " at " ++ v.path "$" ++ ": " ++ v.message ++ "\nsample: " ++ s.outcome.sample.shown

/-- The event that tells of the outcome. -/
def event (s : Section) : Event :=
  match s.outcome.violation with
  | none => .typePassed s.label s.outcome.checked
  | some ⟨_, .encoding _⟩ => .sampleUnencodable s.label s.outcome.sample.inText
  | some v => .sampleViolates s.label v.constraint (v.path "$")

end Section

namespace Report

/-- Whether every type passed. -/
def passed (r : Report) : Bool := r.sections.all (·.passed)

/-- The types that failed. -/
def failures (r : Report) : List Section := r.sections.filter (!·.passed)

/-- The first section under a label. -/
def find (r : Report) (label : String) : Except Fault Section :=
  match r.sections.find? (·.label == label) with
  | some s => .ok s
  | none => .error (.missingKey label)

/-- The events that tell of a report. -/
def events (r : Report) : List Event :=
  r.sections.map (·.event) ++ [.conformanceChecked r.sections.length (r.failures.map (·.label))]

end Report
end ApiTree
