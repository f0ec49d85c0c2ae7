import ApiTree.Fault
import ApiTree.Number.Decimal
import ApiTree.Time.Basic
import ApiTree.Ty.Label

/-!
# ApiTree.Sample.Value

Values as the types have them, before they are encoded: tuples differ from
lists, a member of an enumeration from what it stands for, and a record knows
its declaration.  `Value.shown` is the form of a value in messages and
`Value.inText` its form inside a text.
-/

namespace ApiTree

/-- A value of a type. -/
inductive Value where
  | null
  | bool (b : Bool)
  | int (n : Int)
  | float (x : Double)
  | text (s : String)
  /-- The bytes of a text. -/
  | bytes (s : String)
  | decimal (d : Decimal)
  | date (d : Date)
  | moment (m : Moment)
  /-- A universally unique identifier, by its written form. -/
  | uuid (s : String)
  | list (items : List Value)
  | tuple (items : List Value)
  /-- Distinct items, in the order in which they came in. -/
  | set (frozen : Bool) (items : List Value)
  | dict (entries : List (Value × Value))
  /-- A member of a declared enumeration. -/
  | member (index : Nat) (name : String) (value : Json)
  /-- A value of a declared model or record.  A member may be missing. -/
  | record (index : Nat) (members : List (String × Value))
  /-- A value of a declared wrapper. -/
  | wrapped (index : Nat) (value : Value)
  /-- A value of a class without structure. -/
  | plain (index : Nat)
deriving Repr, Inhabited

namespace Value

mutual

/-- A JSON value as it is. -/
def ofJson : Json → Value
  | .null => .null
  | .bool b => .bool b
  | .int n => .int n
  | .float x => .float x
  | .str s => .text s
  | .arr xs => .list (ofItems xs)
  | .obj ms => .dict (ofMembers ms)

/-- JSON values as they are. -/
def ofItems : List Json → List Value
  | [] => []
  | x :: xs => ofJson x :: ofItems xs

/-- The members of a JSON object as they are. -/
def ofMembers : List (String × Json) → List (Value × Value)
  | [] => []
  | (k, v) :: ms => (.text k, ofJson v) :: ofMembers ms

end

/-- A number as it is. -/
def ofNumber : Number → Value
  | .int n => .int n
  | .float x => .float x

/-! ## Keys and items of sets -/

/-- The number that a value is, booleans counting as 0 and 1. -/
def toNumber? : Value → Option Number
  | .bool b => some (.int (if b then 1 else 0))
  | .int n => some (.int n)
  | .float x => some (.float x)
  | _ => none

/-- Whether a value is a number equal to the given one. -/
def equalsNumber (v : Value) (n : Number) : Bool :=
  match v with
  | .decimal d => d.cmpNumber? n == some .eq
  | v => v.toNumber?.any n.same

mutual

/-- Equality of values that can be keys: numbers compare by value, and items of
sets in any order. -/
def sameKey : Value → Value → Bool
  | .null, w => match w with
    | .null => true
    | _ => false
  | .text s, w => match w with
    | .text t => s == t
    | _ => false
  | .bytes s, w => match w with
    | .bytes t => s == t
    | _ => false
  | .uuid s, w => match w with
    | .uuid t => s == t
    | _ => false
  | .date d, w => match w with
    | .date e => d == e
    | _ => false
  | .moment m, w => match w with
    | .moment n => m.zone.isSome == n.zone.isSome && m.micros == n.micros
    | _ => false
  | .bool a, w => w.equalsNumber (.int (if a then 1 else 0))
  | .int a, w => w.equalsNumber (.int a)
  | .float a, w => w.equalsNumber (.float a)
  | .decimal d, w => match w with
    | .decimal e => d.same e
    | w => w.toNumber?.any fun n => d.cmpNumber? n == some .eq
  | .tuple vs, w => match w with
    | .tuple ws => sameKeys vs ws
    | _ => false
  | .set _ vs, w => match w with
    | .set _ ws => vs.length == ws.length && eachIn vs ws
    | _ => false
  | .member i a _, w => match w with
    | .member j b _ => i == j && a == b
    | _ => false
  | _, _ => false

/-- Item by item equality. -/
def sameKeys : List Value → List Value → Bool
  | [], [] => true
  | v :: vs, w :: ws => sameKey v w && sameKeys vs ws
  | _, _ => false

/-- Whether each value of the first list equals one of the second. -/
def eachIn : List Value → List Value → Bool
  | [], _ => true
  | v :: vs, ws => ws.any (fun w => sameKey v w) && eachIn vs ws

end

mutual

/-- The kind of the first part of a value that keeps it from being a key. -/
def mutableKind? (c : Catalog) : Value → Option String
  | .list _ => some "list"
  | .dict _ => some "dict"
  | .set frozen _ => if frozen then none else some "set"
  | .record i _ | .wrapped i _ => some (c.decl i).name
  | .tuple vs => mutableKindIn? c vs
  | _ => none

/-- The kind of the first part of some values that keeps them from being keys. -/
def mutableKindIn? (c : Catalog) : List Value → Option String
  | [] => none
  | v :: vs => (mutableKind? c v).or (mutableKindIn? c vs)

end

/-- Fails unless the value can be a key. -/
def checkKey (c : Catalog) (v : Value) : Except Fault Unit :=
  match v.mutableKind? c with
  | some kind => .error (.unhashable kind)
  | none => .ok ()

/-- The set of some items: of equal ones the first. -/
def setOf (frozen : Bool) (items : List Value) : Value := .set frozen (Ty.distinct sameKey items)

/-- Entries with one more: in place if its key is known, else at the end. -/
def putEntry : List (Value × Value) → Value → Value → List (Value × Value)
  | [], k, v => [(k, v)]
  | (k', v') :: es, k, v => if sameKey k' k then (k', v) :: es else (k', v') :: putEntry es k v

/-- The entries of some keys and values: of equal keys the last value. -/
def dictOf (entries : List (Value × Value)) : Value :=
  .dict (entries.foldl (fun es e => putEntry es e.1 e.2) [])

/-! ## Written forms -/

/-- A text in braces. -/
def braced (parts : List String) : String := "\x7b" ++ ", ".intercalate parts ++ "\x7d"

/-- The name that a record is shown with. -/
def recordName (c : Catalog) (i : Nat) : String :=
  match c.form i with
  | .record _ => (c.decl i).qualname
  | _ => (c.decl i).name

/-- A date in messages. -/
def dateShown (d : Date) : String :=
  called "datetime.date" [toString d.year, toString d.month, toString d.day]

/-- A point in time in messages: seconds and microseconds go if they are zero. -/
def momentShown (m : Moment) : String :=
  called "datetime.datetime" <|
    [m.date.year, m.date.month, m.date.day, m.hour, m.minute].map toString ++
      (if m.second = 0 ∧ m.micro = 0 then [] else [toString m.second]) ++
      (if m.micro = 0 then [] else [toString m.micro]) ++
      (m.zone.map fun z => "tzinfo=" ++ called "TzInfo" [toString z]).toList

mutual

/-- The form of a value in messages. -/
def shown (c : Catalog) : Value → String
  | .null => "None"
  | .bool b => if b then "True" else "False"
  | .int n => toString n
  | .float x => x.text
  | .text s => quoted s
  | .bytes s => quotedBytes s
  | .decimal d => called "Decimal" [quoted d.text]
  | .date d => dateShown d
  | .moment m => momentShown m
  | .uuid s => called "UUID" [quoted s]
  | .list vs => "[" ++ ", ".intercalate (shownList c vs) ++ "]"
  | .tuple vs =>
    match shownList c vs with
    | [s] => "(" ++ s ++ ",)"
    | ss => "(" ++ ", ".intercalate ss ++ ")"
  | .set frozen vs =>
    let items := if vs.isEmpty then "" else braced (shownList c vs)
    if frozen then "frozenset(" ++ items ++ ")" else if vs.isEmpty then "set()" else items
  | .dict es => braced (shownEntries c es)
  | .member i name v => "<" ++ (c.decl i).name ++ "." ++ name ++ ": " ++ v.shown ++ ">"
  | .record i ms => called (recordName c i) (shownMembers c ms)
  | .wrapped i v => called (c.decl i).name ["root=" ++ shown c v]
  | .plain i => "<" ++ c.classIdentity i ++ " object>"

/-- The forms of values in messages. -/
def shownList (c : Catalog) : List Value → List String
  | [] => []
  | v :: vs => shown c v :: shownList c vs

/-- The forms of entries in messages. -/
def shownEntries (c : Catalog) : List (Value × Value) → List String
  | [] => []
  | (k, v) :: es => (shown c k ++ ": " ++ shown c v) :: shownEntries c es

/-- The forms of members in messages. -/
def shownMembers (c : Catalog) : List (String × Value) → List String
  | [] => []
  | (n, v) :: ms => (n ++ "=" ++ shown c v) :: shownMembers c ms

end

/-- The form of a value inside a text. -/
def inText (c : Catalog) (v : Value) : String :=
  match v with
  | .text s | .uuid s => s
  | .decimal d => d.text
  | .date d => d.text
  | .moment m => m.date.text ++ " " ++ m.clockText ++ (m.zone.map Moment.zoneText).getD ""
  | .member i name _ => (c.decl i).name ++ "." ++ name
  | .wrapped _ w => "root=" ++ w.shown c
  | .record i ms =>
    match c.form i with
    | .record _ => v.shown c
    | _ => " ".intercalate (shownMembers c ms)
  | v => v.shown c

end Value
end ApiTree
