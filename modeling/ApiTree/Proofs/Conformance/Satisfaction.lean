import ApiTree.Conformance.Check
import ApiTree.Proofs.Number.Multiple
import Mathlib.Logic.Relation

/-!
# ApiTree.Proofs.Conformance.Satisfaction

When a value satisfies a schema, said without the order in which a check goes.
`Meets` is one level of it: the constraints of a schema on a value, all independent
of each other, with a relation `R` for the schemas inside.  A satisfaction is a
relation that holds exactly where one level holds with the relation itself inside
(`IsSatisfaction`).

A schema leads to others: *in place*, to schemas of the same value, and *inside*, to
schemas of the parts of the value.  Definitions are guarded when no way in place comes
back to its start; then there is one satisfaction (Proofs.Conformance.Guarded).
-/

namespace ApiTree

namespace Json

/-- The number that a value is; a boolean is none. -/
def number? : Json → Option Number
  | .int n => some (.int n)
  | .float x => some (.float x)
  | _ => none

/-- The parts of a value: the items of an array, the members of an object. -/
def parts : Json → List Json
  | .arr xs => xs
  | .obj ms => ms.map (·.2)
  | _ => []

/-- Whether a value is of the type that a name stands for.  A boolean is no number, a
double with an integer for its value is an integer, and a name that stands for no type
admits every value. -/
def HasType (v : Json) : String → Prop
  | "integer" => (∃ n, v = .int n) ∨ ∃ x, v = .float x ∧ ∃ n : ℤ, x.rational? = some (n : ℚ)
  | "number" => (∃ n, v = .int n) ∨ ∃ x, v = .float x
  | "string" => ∃ t, v = .str t
  | "boolean" => ∃ b, v = .bool b
  | "array" => ∃ xs, v = .arr xs
  | "object" => ∃ ms, v = .obj ms
  | "null" => v = .null
  | _ => True

end Json

/-- Decides whether a text conforms to a pattern or to a format, and always answers. -/
abbrev Conforms := Json → String → Bool

namespace Schema

/-! ## one level of satisfaction -/

/-- The schema has the number `b` under a keyword. -/
def HasNumber (s : Schema) (keyword : String) (b : Number) : Prop :=
  (Table.find? s keyword).bind Json.number? = some b

/-- The schema has the literal true under a keyword. -/
def Flags (s : Schema) (keyword : String) : Prop := Table.find? s keyword = some (.bool true)

/-- The constraints on a number.  A number keeps a bound unless it lies on the other side;
exclusivity is written as the literal true beside an inclusive bound, or as a bound of its
own.  A divisor that is zero asks for nothing. -/
structure AdmitsNumber (s : Schema) (x : Number) : Prop where
  minimum : ∀ b, HasNumber s "minimum" b → ¬ Flags s "exclusiveMinimum" → ¬ x.Lt b
  maximum : ∀ b, HasNumber s "maximum" b → ¬ Flags s "exclusiveMaximum" → ¬ b.Lt x
  exclusiveMinimum : ∀ b, HasNumber s "exclusiveMinimum" b ∨
    HasNumber s "minimum" b ∧ Flags s "exclusiveMinimum" → ¬ x.Le b
  exclusiveMaximum : ∀ b, HasNumber s "exclusiveMaximum" b ∨
    HasNumber s "maximum" b ∧ Flags s "exclusiveMaximum" → ¬ b.Le x
  multipleOf : ∀ d, HasNumber s "multipleOf" d → d.rational? ≠ some 0 → x.IsMultiple d

/-- A pattern is found somewhere in a text. -/
def FoundIn (pattern : Json) (text : String) : Prop :=
  ∃ written p, pattern = .str written ∧ Pattern.ofText written = .ok p ∧ p.occursIn text = true

/-- A text conforms to a pattern: by the rule, or without one by a search. -/
def MatchesPattern (rule : Option Conforms) (pattern : Json) (text : String) : Prop :=
  match rule with
  | some conforms => conforms pattern text = true
  | none => FoundIn pattern text

/-- The size keeps the bounds under two keywords. -/
structure AdmitsSize (s : Schema) (least most : String) (size : Nat) : Prop where
  least : ∀ b, HasNumber s least b → ¬ (Number.int size).Lt b
  most : ∀ b, HasNumber s most b → ¬ b.Lt (.int size)

/-- The constraints on a text.  A rule decides patterns and formats; without one,
patterns are searched for and formats ask for nothing. -/
structure AdmitsText (rule : Option Conforms) (s : Schema) (text : String) : Prop where
  length : AdmitsSize s "minLength" "maxLength" text.length
  pattern : ∀ p, Table.find? s "pattern" = some p → MatchesPattern rule p text
  format : ∀ f conforms, Table.find? s "format" = some f → rule = some conforms →
    conforms f text = true

variable (R : Json → Json → Prop)

/-- The constraints on an array and its items. -/
structure AdmitsArray (s : Schema) (xs : List Json) : Prop where
  size : AdmitsSize s "minItems" "maxItems" xs.length
  unique : Flags s "uniqueItems" → xs.Pairwise fun a b => a.itemEq b = false
  items : ∀ t, Table.find? s "items" = some (.obj t) → ∀ x ∈ xs, R x (.obj t)
  row : ∀ ts,
    Table.find? s "items" = some (.arr ts) ∨ Table.find? s "prefixItems" = some (.arr ts) →
    ∀ (i : Nat) x t, xs[i]? = some x → ts[i]? = some t → R x t

/-- The schema has a schema for the member of a name. -/
def Describes (s : Schema) (name : String) : Prop :=
  ∃ ps t, Table.find? s "properties" = some (.obj ps) ∧ (name, t) ∈ ps

/-- The constraints on an object and its members. -/
structure AdmitsObject (s : Schema) (ms : Json.Members) : Prop where
  required : ∀ names name, Table.find? s "required" = some (.arr names) → .str name ∈ names →
    ∃ w, Table.find? ms name = some w
  properties : ∀ ps name t w, Table.find? s "properties" = some (.obj ps) → (name, t) ∈ ps →
    Table.find? ms name = some w → R w t
  closed : Table.find? s "additionalProperties" = some (.bool false) →
    ∀ name w, (name, w) ∈ ms → Describes s name
  additional : ∀ t, Table.find? s "additionalProperties" = some (.obj t) →
    ∀ name w, (name, w) ∈ ms → ¬ Describes s name → R w (.obj t)

/-- One element of a list has a property, and no other element has it. -/
def ExactlyOne (p : Json → Prop) (ts : List Json) : Prop :=
  ∃ before t after, ts = before ++ t :: after ∧ p t ∧ ∀ u ∈ before ++ after, ¬ p u

/-- All the constraints of a schema on a value, each for itself. -/
structure Admits (rule : Option Conforms) (s : Schema) (v : Json) : Prop where
  all : ∀ ts, Table.find? s "allOf" = some (.arr ts) → ∀ t ∈ ts, R v t
  any : ∀ ts, Table.find? s "anyOf" = some (.arr ts) → ∃ t ∈ ts, R v t
  one : ∀ ts, Table.find? s "oneOf" = some (.arr ts) → ExactlyOne (R v) ts
  type : ∀ j, Table.find? s "type" = some j →
    ∃ name, (j = .str name ∨ ∃ ts, j = .arr ts ∧ .str name ∈ ts) ∧ v.HasType name
  enum : ∀ options, Table.find? s "enum" = some (.arr options) → ∃ e ∈ options, v.itemEq e = true
  number : ∀ x, v.number? = some x → AdmitsNumber s x
  text : ∀ t, v = .str t → AdmitsText rule s t
  array : ∀ xs, v = .arr xs → AdmitsArray R s xs
  object : ∀ ms, v = .obj ms → AdmitsObject R s ms

end Schema

open Schema in
/-- One level of satisfaction, with `R` for the schemas inside.  Beside a reference
nothing else counts, and null satisfies a schema that allows for it. -/
def Meets (definitions : Table String Json) (rule : Option Conforms) (R : Json → Json → Prop)
    (v : Json) : Json → Prop
  | .obj s =>
    match Table.find? s "$ref" with
    | some ref => ∃ t, Check.follow definitions ref = .ok t ∧ R v t
    | none => (v = .null ∧ Flags s "nullable") ∨ Admits R rule s v
  | _ => False

/-- A relation is a satisfaction when it holds exactly where one level of it holds with the
relation itself for the schemas inside. -/
def IsSatisfaction (definitions : Table String Json) (rule : Option Conforms)
    (R : Json → Json → Prop) : Prop :=
  ∀ v s, R v s ↔ Meets definitions rule R v s

/-! ## where a schema leads -/

namespace Schema

/-- The schemas under a keyword, one or several. -/
def under (s : Schema) (keyword : String) : List Json :=
  match Table.find? s keyword with
  | some (.obj t) => [.obj t]
  | some (.arr ts) => ts
  | _ => []

/-- The schemas of the members that are described. -/
def described (s : Schema) : List Json :=
  match Table.find? s "properties" with
  | some (.obj ps) => ps.map (·.2)
  | _ => []

end Schema

/-- The schemas to which a schema leads for the same value. -/
def inPlace (definitions : Table String Json) : Json → List Json
  | .obj s =>
    match Table.find? s "$ref" with
    | some ref => (Check.follow definitions ref).toOption.toList
    | none => ["allOf", "anyOf", "oneOf"].flatMap (Schema.under s)
  | _ => []

/-- The schemas to which a schema leads for the parts of a value. -/
def inside : Json → List Json
  | .obj s =>
    match Table.find? s "$ref" with
    | some _ => []
    | none => ["items", "prefixItems", "additionalProperties"].flatMap (Schema.under s) ++
        Schema.described s
  | _ => []

/-- No schema leads back to itself in place. -/
def Guarded (definitions : Table String Json) : Prop :=
  ∀ s, ¬ Relation.TransGen (fun a b => b ∈ inPlace definitions a) s s

/-- A value with a schema leads to the same value with a schema in place, and to its parts
with the schemas inside. -/
def Leads (definitions : Table String Json) (a b : Json × Json) : Prop :=
  (b.1 = a.1 ∧ b.2 ∈ inPlace definitions a.2) ∨ (b.1 ∈ a.1.parts ∧ b.2 ∈ inside a.2)

/-! ## keywords of the right form -/

namespace Schema

/-- A text. -/
def isText : Json → Bool
  | .str _ => true
  | _ => false

/-- A schema. -/
def isObject : Json → Bool
  | .obj _ => true
  | _ => false

/-- A list whose elements have a form. -/
def isList (form : Json → Bool) : Json → Bool
  | .arr xs => xs.all form
  | _ => false

/-- Whether the value of a keyword has the form that the keyword asks for.  A reference
names a definition, a divisor is finite, and a pattern can be read if it must be. -/
def hasForm (definitions : Table String Json) (rule : Option Conforms) (keyword : String)
    (j : Json) : Bool :=
  match keyword with
  | "$ref" => (Check.follow definitions j).isOk
  | "nullable" | "uniqueItems" => j.isBool
  | "allOf" | "anyOf" | "oneOf" | "prefixItems" => isList isObject j
  | "items" => isObject j || isList isObject j
  | "additionalProperties" => j.isBool || isObject j
  | "type" => isText j || isList isText j
  | "enum" => isList (fun _ => true) j
  | "minimum" | "maximum" | "minLength" | "maxLength" | "minItems" | "maxItems" =>
    j.number?.isSome
  | "exclusiveMinimum" | "exclusiveMaximum" => j.isBool || j.number?.isSome
  | "multipleOf" => j.number?.any Number.isFinite
  | "format" => isText j
  | "pattern" =>
    match j with
    | .str written => rule.isSome || (Pattern.ofText written).isOk
    | _ => false
  | "required" => isList isText j
  | "properties" =>
    match j with
    | .obj ps => ps.all fun p => isObject p.2
    | _ => false
  | _ => true

/-- Whether a value is a schema whose keywords have the right form. -/
def isFormed (definitions : Table String Json) (rule : Option Conforms) : Json → Bool
  | .obj s => s.all fun e => hasForm definitions rule e.1 e.2
  | _ => false

end Schema

/-- A schema whose keywords have the right form, all the way that it leads from a value. -/
def WellTyped (definitions : Table String Json) (rule : Option Conforms) (v s : Json) : Prop :=
  ∀ w t, Relation.ReflTransGen (Leads definitions) (v, s) (w, t) →
    Schema.isFormed definitions rule t = true

/-- Where a number meets a divisor, all the way that a value with a schema leads, the one is
divided by the other without rounding. -/
def DividesExactly (definitions : Table String Json) (v s : Json) : Prop :=
  ∀ w ms, Relation.ReflTransGen (Leads definitions) (v, s) (w, .obj ms) →
    ∀ x d, w.number? = some x → Schema.HasNumber ms "multipleOf" d → x.dividesExactly d = true

end ApiTree
