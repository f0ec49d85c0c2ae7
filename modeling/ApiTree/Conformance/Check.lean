import ApiTree.Conformance.Violation
import ApiTree.Number.Multiple
import ApiTree.Schema.Reference

/-!
# ApiTree.Conformance.Check

Checking a value against a schema.  `Check.run` reports the first constraint
that is broken, in a fixed order: references and combinations, the type, the
enumeration, then the constraints of the value's own kind, and last its parts.

Keywords are read as they are found, so one of the wrong form is a fault and
not a violation.  Patterns are searched for in the text, unless the caller
brings a rule of its own, which then decides patterns and formats alike.
-/

namespace ApiTree

/-- Decides whether a text conforms to a pattern or to a format. -/
abbrev TextRule (m : Type → Type) := Json → String → m Bool

namespace Check

/-! ## Reading keywords -/

/-- The parts of what stands where a list is expected: items, names of members
or characters. -/
def parts : Json → Except Fault (List Json)
  | .arr xs => .ok xs
  | .obj ms => .ok (ms.map fun e => .str e.1)
  | .str s => .ok (s.toList.map fun c => .str c.toString)
  | j => .error (.notIterable j.kind)

/-- The parts of a keyword; none if it is absent. -/
def listed (s : Schema) (keyword : String) : Except Fault (List Json) :=
  match Table.find? s keyword with
  | none => .ok []
  | some j => parts j

/-- The value of a keyword, null counting as absent. -/
def given? (s : Schema) (keyword : String) : Option Json :=
  match Table.find? s keyword with
  | some .null => none
  | found => found

/-- Whether a keyword is present and counts as true. -/
def flagged (s : Schema) (keyword : String) : Bool :=
  (Table.find? s keyword).any Json.truthy

/-- Fails for a value that cannot be looked up in a set of names. -/
def hashable : Json → Except Fault Unit
  | .arr xs => .error (.unhashable (Json.arr xs).kind)
  | .obj ms => .error (.unhashable (Json.obj ms).kind)
  | _ => .ok ()

/-- The fault of something that stands where a schema is expected. -/
def notASchema : Json → Fault
  | .str s =>
    if s.contains "$ref" then .textIndex
    else .noMember "str" "get"
  | .arr xs =>
    if xs.any (·.looseEq (.str "$ref")) then .listIndex else .noMember "list" "get"
  | j => .notAContainer j.kind

/-- Follows the reference of a schema. -/
def follow (definitions : Table String Json) : Json → Except Fault Json
  | .str ref => Reference.follow definitions ref
  | j => .error (.noMember j.kind "startswith")

/-! ## Constraints on the value itself -/

/-- Whether a value has the type of a name; a name that stands for no type
admits every value. -/
def hasType (v : Json) : String → Bool
  | "integer" =>
    match v with
    | .int _ => true
    | .float x => x.isWhole
    | _ => false
  | "number" =>
    match v with
    | .int _ | .float _ => true
    | _ => false
  | "string" => v.kind == "str"
  | "boolean" => v.isBool
  | "array" => v.kind == "list"
  | "object" => v.kind == "dict"
  | "null" => v.kind == "NoneType"
  | _ => true

/-- Whether a value has the type that a keyword gives. -/
def admits (v : Json) : Json → Except Fault Bool
  | .str name => .ok (hasType v name)
  | j => do
    hashable j
    return true

/-- Whether a value has one of the types. -/
def admitsOne (v : Json) : List Json → Except Fault Bool
  | [] => .ok false
  | t :: ts => do
    if ← admits v t then return true
    admitsOne v ts

/-- A breach, if a condition holds. -/
def breachIf (broken : Bool) (b : Breach) : Option Breach := if broken then some b else none

/-- The type that is asked for. -/
def ofType (v : Json) (s : Schema) : Except Fault (Option Breach) :=
  match given? s "type" with
  | none => .ok none
  | some expected => do
    let types := match expected with
      | .arr ts => ts
      | t => [t]
    return breachIf (!(← admitsOne v types)) (.type expected v)

/-- The values that are asked for. -/
def ofEnum (v : Json) (s : Schema) : Except Fault (Option Breach) :=
  match Table.find? s "enum" with
  | none => .ok none
  | some options => do
    return breachIf (!(← parts options).any v.itemEq) (.enum v options)

/-- How a value compares with what stands where a number is expected. -/
def against (operator : String) (holds : Number → Number → Bool) (v bound : Json) :
    Except Fault Bool :=
  match v.toNumber?, bound.toNumber? with
  | some a, some b => .ok (holds a b)
  | _, _ => .error (.incomparable operator v.kind bound.kind)

/-- A bound that is a number and not a boolean. -/
def numeric? : Option Json → Option Json
  | some (.int n) => some (.int n)
  | some (.float x) => some (.float x)
  | _ => none

/-- The inclusive and the exclusive bound under two keywords.  An exclusive
bound is a number of its own, or the literal true, which makes the inclusive
bound exclusive. -/
def bounds (s : Schema) (inclusive exclusive : String) : Option Json × Option Json :=
  match given? s exclusive with
  | some (.bool true) => (none, given? s inclusive)
  | e => (given? s inclusive, e)

/-- Fails a value on a bound that it does not keep. -/
def bounded (bound : Option Json) (operator : String) (crosses : Number → Number → Bool)
    (v : Json) (breach : Json → Json → Breach) : Except Fault (Option Breach) :=
  match bound with
  | none => .ok none
  | some b => do
    return breachIf (← against operator crosses v b) (breach v b)

/-- The number that is asked to divide the value. -/
def ofMultiple (v : Json) (s : Schema) : Except Fault (Option Breach) :=
  match Table.find? s "multipleOf" with
  | none => .ok none
  | some d =>
    if !d.truthy then .ok none
    else
      match v.toNumber?, d.toNumber? with
      | some a, some b =>
        match a.isMultipleOf? b with
        | some whole => .ok (breachIf (!whole) (.multipleOf v d))
        | none => .error .tooLarge
      | _, _ => .error (.noRemainder v.kind d.kind)

/-- The first breach of several. -/
def firstBreach : List (Except Fault (Option Breach)) → Except Fault (Option Breach)
  | [] => .ok none
  | b :: bs => do
    match ← b with
    | some breach => return some breach
    | none => firstBreach bs

/-- The constraints on a number. -/
def ofNumber (v : Json) (s : Schema) : Except Fault (Option Breach) :=
  let low := bounds s "minimum" "exclusiveMinimum"
  let high := bounds s "maximum" "exclusiveMaximum"
  firstBreach
    [bounded low.1 "<" Number.below v .minimum,
      bounded high.1 ">" (fun a b => b.below a) v .maximum,
      bounded (numeric? low.2) "<=" Number.atMost v .exclusiveMinimum,
      bounded (numeric? high.2) ">=" (fun a b => b.atMost a) v .exclusiveMaximum,
      ofMultiple v s]

/-- The bounds that two keywords put on a size. -/
def ofSize (size : Nat) (s : Schema) (least most : String)
    (tooFew tooMany : Nat → Json → Breach) : Except Fault (Option Breach) :=
  let n : Json := .int size
  firstBreach
    [bounded (Table.find? s least) "<" Number.below n fun _ b => tooFew size b,
      bounded (Table.find? s most) ">" (fun a b => b.below a) n fun _ b => tooMany size b]

/-- Whether a pattern is found in a text. -/
def found (pattern : Json) (text : String) : Except Fault Bool :=
  match pattern with
  | .str written =>
    match Pattern.ofText written with
    | .ok p => .ok (p.occursIn text)
    | .error e => .error (.badPattern e written)
  | j => do
    hashable j
    throw .notAPattern

/-- The place of the first item that equals an earlier one; `seen` holds the
items before. -/
def repeated? (seen : List Json) : List Json → Option Nat
  | [] => none
  | x :: xs =>
    if seen.any x.itemEq then some seen.length else repeated? (seen ++ [x]) xs

/-! ## The whole value -/

variable {m : Type → Type} [Monad m] [MonadLiftT (Except Fault) m]

/-- What a check finds: the first violation, if there is one. -/
abbrev Verdict := Option Violation

/-- The first verdict unless it is clean, else the second. -/
def orElse (first : m Verdict) (second : Unit → m Verdict) : m Verdict := do
  match ← first with
  | some v => pure (some v)
  | none => second ()

/-- The first violation among the elements of a list. -/
def firstOf {α : Type} (f : α → m Verdict) : List α → m Verdict
  | [] => pure none
  | x :: xs => orElse (f x) fun _ => firstOf f xs

/-- Whether an element of a list is clean; stops at the first one. -/
def someClean {α : Type} (f : α → m Verdict) : List α → m Bool
  | [] => pure false
  | x :: xs => do
    match ← f x with
    | none => pure true
    | some _ => someClean f xs

/-- How many elements of a list are clean. -/
def countClean {α : Type} (f : α → m Verdict) : List α → m Nat
  | [] => pure 0
  | x :: xs => do
    let v ← f x
    let n ← countClean f xs
    pure (if v.isNone then n + 1 else n)

/-- The verdict on the value itself. -/
def onValue (b : Except Fault (Option Breach)) : m Verdict := do
  pure ((← liftM b).map Violation.here)

/-- The verdict on a part of the value. -/
def onPart (step : Step) (v : m Verdict) : m Verdict := do
  pure ((← v).map (·.under step))

/-- At least one of the alternatives. -/
def ofAny (sub : Json → Json → m Verdict) (v : Json) (s : Schema) : m Verdict :=
  match Table.find? s "anyOf" with
  | none => pure none
  | some alternatives => do
    let clean ← someClean (sub v) (← liftM (parts alternatives))
    pure (if clean then none else some (.here .noAlternative))

/-- Exactly one of the alternatives. -/
def ofOne (sub : Json → Json → m Verdict) (v : Json) (s : Schema) : m Verdict :=
  match Table.find? s "oneOf" with
  | none => pure none
  | some alternatives => do
    let n ← countClean (sub v) (← liftM (parts alternatives))
    pure (if n = 1 then none else some (.here (.alternatives n)))

/-- The pattern and the format that are asked for. -/
def ofText (rule : Option (TextRule m)) (text : String) (s : Schema) : m Verdict :=
  orElse
    (match given? s "pattern" with
      | none => pure none
      | some p => do
        let ok ← match rule with
          | some r => r p text
          | none => liftM (found p text)
        pure (if ok then none else some (.here (.pattern text p))))
    fun _ =>
      match given? s "format", rule with
      | some f, some r => do
        let ok ← r f text
        pure (if ok then none else some (.here (.format text f)))
      | _, _ => pure none

/-- Items in pairs with their schemas, from the place `i` on. -/
def ofPairs (sub : Json → Json → m Verdict) (i : Nat) : List Json → List Json → m Verdict
  | x :: xs, t :: ts =>
    orElse (onPart (.item i) (sub x t)) fun _ => ofPairs sub (i + 1) xs ts
  | _, _ => pure none

/-- Items that share one schema, from the place `i` on. -/
def ofItems (sub : Json → Json → m Verdict) (schema : Json) (i : Nat) : List Json → m Verdict
  | [] => pure none
  | x :: xs =>
    orElse (onPart (.item i) (sub x schema)) fun _ => ofItems sub schema (i + 1) xs

/-- The constraints on an array and its items. -/
def ofArray (sub : Json → Json → m Verdict) (xs : List Json) (s : Schema) : m Verdict :=
  orElse (onValue (ofSize xs.length s "minItems" "maxItems" .minItems .maxItems)) fun _ =>
  orElse
    (pure (if flagged s "uniqueItems" then
        (repeated? [] xs).map fun i => (Violation.here .duplicateItem).under (.item i)
      else none)) fun _ =>
  orElse
    (match Table.find? s "items" with
      | some (.obj ms) => ofItems sub (.obj ms) 0 xs
      | some (.arr ts) => ofPairs sub 0 xs ts
      | _ => pure none) fun _ => do
  ofPairs sub 0 xs (← liftM (listed s "prefixItems"))

/-- The first name that is asked for and that the object lacks. -/
def firstMissing (ms : Json.Members) : List Json → Except Fault (Option Violation)
  | [] => .ok none
  | .str name :: names =>
    if Table.has ms name then firstMissing ms names
    else .ok (some ((Violation.here (.missing (.str name))).under (.member name)))
  | j :: _ => do
    hashable j
    return some ((Violation.here (.missing j)).under (.member j.inText))

/-- The members that the schema describes. -/
def properties (s : Schema) : Except Fault Schema :=
  match Table.find? s "properties" with
  | none => .ok []
  | some (.obj ps) => .ok ps
  | some j => .error (.noMember j.kind "items")

/-- The constraints on a member that the schema does not describe. -/
def ofExtra (sub : Json → Json → m Verdict) (extra : Option Json) (name : String) (v : Json) :
    m Verdict :=
  match extra with
  | some (.bool false) => pure (some ((Violation.here (.unexpected name)).under (.member name)))
  | some (.obj ms) => onPart (.member name) (sub v (.obj ms))
  | _ => pure none

/-- The constraints on an object and its members. -/
def ofObject (sub : Json → Json → m Verdict) (ms : Json.Members) (s : Schema) : m Verdict :=
  orElse (do liftM (firstMissing ms (← liftM (listed s "required")))) fun _ => do
  let described ← liftM (properties s)
  orElse
    (firstOf (fun (name, schema) =>
      match Table.find? ms name with
      | some v => onPart (.member name) (sub v schema)
      | none => pure none) described) fun _ =>
  firstOf (fun (name, v) =>
    if Table.has described name then pure none
    else ofExtra sub (Table.find? s "additionalProperties") name v) ms

/-- The constraints of the value's own kind. -/
def ofKind (sub : Json → Json → m Verdict) (rule : Option (TextRule m)) (v : Json)
    (s : Schema) : m Verdict :=
  match v with
  | .int _ | .float _ => onValue (ofNumber v s)
  | .str text =>
    orElse (onValue (ofSize text.length s "minLength" "maxLength" .minLength .maxLength)) fun _ =>
      ofText rule text s
  | .arr xs => ofArray sub xs s
  | .obj ms => ofObject sub ms s
  | _ => pure none

/-- A value against a schema that is no reference, with `sub` for the schemas
inside. -/
def ofSchema (sub : Json → Json → m Verdict) (rule : Option (TextRule m)) (v : Json)
    (s : Schema) : m Verdict :=
  if v.kind == "NoneType" && flagged s "nullable" then pure none
  else
    orElse (do firstOf (sub v) (← liftM (listed s "allOf"))) fun _ =>
    orElse (ofAny sub v s) fun _ =>
    orElse (ofOne sub v s) fun _ =>
    orElse (onValue (ofType v s)) fun _ =>
    orElse (onValue (ofEnum v s)) fun _ =>
    ofKind sub rule v s

/-- Checks a value against a schema, at most `fuel` schemas deep. -/
def within (definitions : Table String Json) (rule : Option (TextRule m)) :
    Nat → Json → Json → m Verdict
  | 0, _, _ => liftM (m := Except Fault) (throw .endless)
  | fuel + 1, v, schema =>
    match schema with
    | .obj s =>
      match Table.find? s "$ref" with
      | some ref => do
        within definitions rule fuel v (← liftM (follow definitions ref))
      | none => ofSchema (within definitions rule fuel) rule v s
    | j => liftM (m := Except Fault) (throw (notASchema j))

/-- How deep a check can go before it must have come back to a reference
without a step into the value: the depth of the value, times the number of
definitions, times the depth of the deepest schema. -/
def budget (definitions : Table String Json) (v schema : Json) : Nat :=
  let deepest := definitions.foldl (fun d e => max d e.2.depth) schema.depth
  (v.depth + 1) * (definitions.length + 1) * (deepest + 1)

/-- The first constraint of a schema that a value breaks.  `definitions` are
the schemas that references lead to. -/
def run (definitions : Table String Json) (rule : Option (TextRule m)) (v schema : Json) :
    m Verdict :=
  within definitions rule (budget definitions v schema) v schema

end Check
end ApiTree
