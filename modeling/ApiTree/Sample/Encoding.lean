import ApiTree.Sample.Value
import ApiTree.Shape.Flaw

/-!
# ApiTree.Sample.Encoding

Encoding values as JSON.  What a value is decides its form: records become
objects by the names of their fields, members of enumerations what they stand
for, tuples and sets arrays, and keys texts.  The shape decides only how numbers
are written: a number among doubles as a double, a truth value among integers as
an integer.  Where the shape leaves a choice, or the value is of another kind,
the value is written as it is.  A caller may bring an encoder of its own for a
type.
-/

namespace ApiTree

namespace Shape

/-- The shape that decides how values that are not null are written. -/
def written : Shape → Shape
  | .nullable s | .limited _ s | .patterned _ s | .said _ _ s => written s
  | s => s

/-- The shape of the `i`th item of a collection of a kind. -/
def ofItem (s : Shape) (kind : Collection) (i : Nat) : Shape :=
  match s with
  | .gathered k _ s => if k = kind then s else .any
  | .sequence s => s
  | .row _ ss => if kind = .run then ss[i]?.getD .any else .any
  | _ => .any

/-- The shape of the values of entries. -/
def ofEntry : Shape → Shape
  | .entries _ _ s => s
  | _ => .any

end Shape

namespace Value

/-- A point in time as a text: universal time is told by a letter. -/
def momentText (m : Moment) : String :=
  m.date.text ++ "T" ++ m.clockText ++
    (m.zone.map fun z => if z = 0 then "Z" else Moment.zoneText z).getD ""

/-- The text of a key of an object. -/
def jsonKey : Json → String
  | .bool b => if b then "true" else "false"
  | j => j.inText

mutual

/-- The text that a key is encoded as. -/
def keyText (c : Catalog) : Value → String
  | .bool b => jsonKey (.bool b)
  | .bytes s => s
  | .moment m => momentText m
  | .member _ _ v => jsonKey v
  | .tuple vs => ",".intercalate (keyTexts c vs)
  | .wrapped _ v => keyText c v
  | v => v.inText c

/-- The texts that keys are encoded as. -/
def keyTexts (c : Catalog) : List Value → List String
  | [] => []
  | v :: vs => keyText c v :: keyTexts c vs

end

/-- The fields of a declared type that are encoded as text. -/
def textFields (c : Catalog) (i : Nat) : List String :=
  match c.form i with
  | .model _ _ _ asText => asText
  | _ => []

/-- The double that an integer is written as among doubles. -/
def asDouble (n : Int) : Except Fault Json :=
  match Double.ofInt? n with
  | some x => .ok (.float x)
  | none => .error .tooLarge

/-- The shape in which the member `name` of a record is written: its own, unless the
record has no shape of its own and `s` is not that of the record. -/
def memberShape (c : Catalog) (s : Shape) (i : Nat) (name : String) : Shape :=
  let field (fs : List FieldDecl) : Shape := (fs.find? (·.name == name)).elim .any c.fieldShape
  match c.form i, s.written with
  | .model fs _ _ _, _ => field fs
  | .record fs, .declared u => if u.index = i then field fs else .any
  | _, _ => .any

/-- The shape in which the content of a wrapper is written. -/
def contentShape (c : Catalog) (i : Nat) : Shape :=
  match c.form i with
  | .root t => c.rootShape t
  | _ => .any

mutual

/-- The encoded form of a value in a shape.  A value without structure has none of
its own, and no type with such values has the encoder. -/
def encode (c : Catalog) (s : Shape) : Value → Except Fault Json
  | .null => .ok .null
  | .bool b =>
    let n : Int := if b then 1 else 0
    match s.written with
    | .number .int _ => .ok (.int n)
    | .number .float _ => asDouble n
    | _ => .ok (.bool b)
  | .int n =>
    match s.written with
    | .number .float _ => asDouble n
    | _ => .ok (.int n)
  | .float x => .ok (.float x)
  | .text t | .bytes t | .uuid t => .ok (.str t)
  | .decimal d => .ok (.str d.text)
  | .date d => .ok (.str d.text)
  | .moment m => .ok (.str (momentText m))
  | .list vs => do return .arr (← encodeItems c (s.written.ofItem .list) 0 vs)
  | .tuple vs => do return .arr (← encodeItems c (s.written.ofItem .run) 0 vs)
  | .set frozen vs => do
    let kind := if frozen then Collection.frozenset else .set
    return .arr (← encodeItems c (s.written.ofItem kind) 0 vs)
  | .dict es => do return .obj (Table.ofList (← encodeEntries c s.written.ofEntry es))
  | .member _ _ v => .ok v
  | .record i ms => do return .obj (← encodeMembers c (memberShape c s i) (textFields c i) ms)
  | .wrapped i v => encode c (contentShape c i) v
  | .plain _ => .ok .null

/-- The encoded forms of items from the `i`th one on. -/
def encodeItems (c : Catalog) (shape : Nat → Shape) (i : Nat) :
    List Value → Except Fault (List Json)
  | [] => .ok []
  | v :: vs => do
    let j ← encode c (shape i) v
    let js ← encodeItems c shape (i + 1) vs
    return j :: js

/-- The encoded forms of entries whose values have a shape. -/
def encodeEntries (c : Catalog) (s : Shape) :
    List (Value × Value) → Except Fault (List (String × Json))
  | [] => .ok []
  | (k, v) :: es => do
    let j ← encode c s v
    let js ← encodeEntries c s es
    return (keyText c k, j) :: js

/-- The encoded forms of members; those named in `asText` are texts with a unit. -/
def encodeMembers (c : Catalog) (shape : String → Shape) (asText : List String) :
    List (String × Value) → Except Fault (List (String × Json))
  | [] => .ok []
  | (n, v) :: ms => do
    let j ← if asText.contains n then .ok (.str (v.inText c ++ "u")) else encode c (shape n) v
    let js ← encodeMembers c shape asText ms
    return (n, j) :: js

end

end Value

/-- Turns values into JSON, if it can. -/
abbrev Encoder := Value → Except Fault Json

/-- Encoders of the caller, by the identity of the type. -/
abbrev Encoders := Table String Encoder

namespace Catalog

/-- The encoder of a type: that of the caller, or the usual one for a type that
has a schema. -/
def encoder (c : Catalog) (own : Encoders) (t : Ty) : Except Fault Encoder :=
  match Table.find? own (c.identity t) with
  | some encode => .ok encode
  | none =>
    match c.checkUse t with
    | .ok () => .ok (Value.encode c (c.shape t))
    | .error .underivable => .error (.noEncoder (c.label t))
    | .error f => .error f

end Catalog
end ApiTree
