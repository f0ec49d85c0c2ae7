import ApiTree.Fault

/-!
# ApiTree.Conformance.Violation

The first constraint of a schema that a value breaks: the steps from the value
to the part at fault, and the breach with what its message shows.
-/

namespace ApiTree

/-- A step from a value to a part of it. -/
inductive Step where
  | member (name : String)
  | item (index : Nat)
deriving DecidableEq, Repr

/-- The written form of a step. -/
def Step.text : Step → String
  | .member name => "." ++ name
  | .item i => "[" ++ toString i ++ "]"

/-- A constraint that is broken, and by what. -/
inductive Breach where
  | noAlternative
  | alternatives (matching : Nat)
  | type (expected value : Json)
  | enum (value options : Json)
  | minimum (value bound : Json)
  | maximum (value bound : Json)
  | exclusiveMinimum (value bound : Json)
  | exclusiveMaximum (value bound : Json)
  | multipleOf (value divisor : Json)
  | minLength (length : Nat) (bound : Json)
  | maxLength (length : Nat) (bound : Json)
  | pattern (value : String) (pattern : Json)
  | format (value : String) (format : Json)
  | minItems (count : Nat) (bound : Json)
  | maxItems (count : Nat) (bound : Json)
  | duplicateItem
  | missing (name : Json)
  | unexpected (name : String)
  /-- The value could not be encoded at all. -/
  | encoding (fault : Fault)
deriving Repr

namespace Breach

/-- The keyword of the broken constraint. -/
def constraint : Breach → String
  | .noAlternative => "anyOf"
  | .alternatives _ => "oneOf"
  | .type .. => "type"
  | .enum .. => "enum"
  | .minimum .. => "minimum"
  | .maximum .. => "maximum"
  | .exclusiveMinimum .. => "exclusiveMinimum"
  | .exclusiveMaximum .. => "exclusiveMaximum"
  | .multipleOf .. => "multipleOf"
  | .minLength .. => "minLength"
  | .maxLength .. => "maxLength"
  | .pattern .. => "pattern"
  | .format .. => "format"
  | .minItems .. => "minItems"
  | .maxItems .. => "maxItems"
  | .duplicateItem => "uniqueItems"
  | .missing _ => "required"
  | .unexpected _ => "additionalProperties"
  | .encoding _ => "encode"

/-- The wording of a breach. -/
def message : Breach → String
  | .noAlternative => "matches no alternative"
  | .alternatives n => "matches " ++ toString n ++ " alternatives, expected exactly one"
  | .type expected v => "expected " ++ expected.inText ++ ", got " ++ v.kind ++ " " ++ v.shown
  | .enum v options => v.shown ++ " not in " ++ options.shown
  | .minimum v b => v.shown ++ " < " ++ b.inText
  | .maximum v b => v.shown ++ " > " ++ b.inText
  | .exclusiveMinimum v b => v.shown ++ " <= " ++ b.inText
  | .exclusiveMaximum v b => v.shown ++ " >= " ++ b.inText
  | .multipleOf v d => v.shown ++ " is not a multiple of " ++ d.inText
  | .minLength n b => "length " ++ toString n ++ " < " ++ b.inText
  | .maxLength n b => "length " ++ toString n ++ " > " ++ b.inText
  | .pattern v p => quoted v ++ " does not match " ++ p.shown
  | .format v f => quoted v ++ " is not a valid " ++ f.inText
  | .minItems n b => toString n ++ " items < " ++ b.inText
  | .maxItems n b => toString n ++ " items > " ++ b.inText
  | .duplicateItem => "duplicate item"
  | .missing name => "missing property " ++ name.shown
  | .unexpected name => "unexpected property " ++ quoted name
  | .encoding f => f.kind ++ ": " ++ f.message

end Breach

/-- A broken constraint and where it is broken. -/
structure Violation where
  steps : List Step
  breach : Breach
deriving Repr

namespace Violation

/-- A breach by the value itself. -/
def here (b : Breach) : Violation := ⟨[], b⟩

/-- The violation seen from one step further out. -/
def under (s : Step) (v : Violation) : Violation := { v with steps := s :: v.steps }

/-- The written form of the place, after a text for the value itself. -/
def path (base : String) (v : Violation) : String := base ++ String.join (v.steps.map Step.text)

/-- The keyword of the broken constraint. -/
def constraint (v : Violation) : String := v.breach.constraint

/-- The wording of a violation. -/
def message (v : Violation) : String := v.breach.message

end Violation
end ApiTree
