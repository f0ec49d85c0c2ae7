import ApiTree.Number.Shortest
import ApiTree.Table
import ApiTree.Text.Quoted

/-!
# ApiTree.Json.Basic

JSON values whose objects keep the order of their members.  Integers are
unbounded and differ from doubles in form, not in value.

Two comparisons are defined beside structural equality.  `Json.looseEq`
compares by value and ignores the order of members; it takes a boolean for the
number 0 or 1.  `Json.itemEq` is the comparison of enumerations and of unique
items: it tells a boolean from a number at the top, and is loose below.
-/

namespace ApiTree

/-- A JSON value. -/
inductive Json where
  | null
  | bool (b : Bool)
  | int (n : Int)
  | float (x : Double)
  | str (s : String)
  | arr (items : List Json)
  | obj (members : List (String × Json))
deriving Repr, Inhabited

namespace Json

/-- The members of an object. -/
abbrev Members := Table String Json

mutual

/-- Structural equality: the same form, with members in the same order. -/
def beq : Json → Json → Bool
  | .null, .null => true
  | .bool a, .bool b => a == b
  | .int a, .int b => a == b
  | .float a, .float b => a == b
  | .str a, .str b => a == b
  | .arr a, .arr b => beqList a b
  | .obj a, .obj b => beqMembers a b
  | _, _ => false

/-- Structural equality of lists of values. -/
def beqList : List Json → List Json → Bool
  | [], [] => true
  | a :: as, b :: bs => beq a b && beqList as bs
  | _, _ => false

/-- Structural equality of lists of members. -/
def beqMembers : List (String × Json) → List (String × Json) → Bool
  | [], [] => true
  | (k, a) :: as, (l, b) :: bs => k == l && beq a b && beqMembers as bs
  | _, _ => false

end

instance : BEq Json := ⟨beq⟩

/-- The number that a value is, booleans counting as 0 and 1. -/
def toNumber? : Json → Option Number
  | .bool b => some (.int (if b then 1 else 0))
  | .int n => some (.int n)
  | .float x => some (.float x)
  | _ => none

/-- Whether the value is a boolean. -/
def isBool : Json → Bool
  | .bool _ => true
  | _ => false

mutual

/-- Equality by value: numbers and booleans by number, arrays item by item,
objects by member whatever the order. -/
def looseEq : Json → Json → Bool
  | .null, b => match b with
    | .null => true
    | _ => false
  | .str s, b => match b with
    | .str t => s == t
    | _ => false
  | .arr xs, b => match b with
    | .arr ys => looseEqList xs ys
    | _ => false
  | .obj ms, b => match b with
    | .obj ns => looseSub [] ms ns && ns.all fun n => Table.has ms n.1
    | _ => false
  | .bool a, b => match b.toNumber? with
    | some n => (Number.int (if a then 1 else 0)).same n
    | none => false
  | .int a, b => match b.toNumber? with
    | some n => (Number.int a).same n
    | none => false
  | .float a, b => match b.toNumber? with
    | some n => (Number.float a).same n
    | none => false

/-- Item by item equality by value. -/
def looseEqList : List Json → List Json → Bool
  | [], [] => true
  | x :: xs, y :: ys => looseEq x y && looseEqList xs ys
  | _, _ => false

/-- Whether each member has an equal value under its name in `ns`.  Of several
members with one name the first counts; `seen` holds the names met so far. -/
def looseSub (seen : List String) : List (String × Json) → List (String × Json) → Bool
  | [], _ => true
  | (k, v) :: ms, ns =>
    (seen.contains k || match ns.lookup k with
      | some w => looseEq v w
      | none => false) && looseSub (k :: seen) ms ns

end

/-- Equality for enumerations and unique items: a boolean equals only the same
boolean; other values compare by value. -/
def itemEq (a b : Json) : Bool :=
  match a, b with
  | .bool x, .bool y => x == y
  | .bool _, _ => false
  | _, .bool _ => false
  | a, b => looseEq a b

/-- Whether the value counts as true where a flag is expected: everything but
null, false, zero and what is empty. -/
def truthy : Json → Bool
  | .null => false
  | .bool b => b
  | .int n => n != 0
  | .float x => !x.isZero
  | .str s => !s.isEmpty
  | .arr xs => !xs.isEmpty
  | .obj ms => !ms.isEmpty

/-- The word for the kind of a value in messages. -/
def kind : Json → String
  | .null => "NoneType"
  | .bool _ => "bool"
  | .int _ => "int"
  | .float _ => "float"
  | .str _ => "str"
  | .arr _ => "list"
  | .obj _ => "dict"

mutual

/-- The written form of a value in messages. -/
def shown : Json → String
  | .null => "None"
  | .bool b => if b then "True" else "False"
  | .int n => toString n
  | .float x => x.text
  | .str s => quoted s
  | .arr xs => "[" ++ ", ".intercalate (shownList xs) ++ "]"
  | .obj ms => "\x7b" ++ ", ".intercalate (shownMembers ms) ++ "\x7d"

/-- The written forms of items. -/
def shownList : List Json → List String
  | [] => []
  | x :: xs => shown x :: shownList xs

/-- The written forms of members. -/
def shownMembers : List (String × Json) → List String
  | [] => []
  | (k, v) :: ms => (quoted k ++ ": " ++ shown v) :: shownMembers ms

end

/-- The form of a value inside running text: a text as it is, anything else as
shown. -/
def inText : Json → String
  | .str s => s
  | v => v.shown

mutual

/-- How deeply a value is nested: one for a value without parts. -/
def depth : Json → Nat
  | .arr xs => depthList xs + 1
  | .obj ms => depthMembers ms + 1
  | _ => 1

/-- The depth of the deepest item. -/
def depthList : List Json → Nat
  | [] => 0
  | x :: xs => max (depth x) (depthList xs)

/-- The depth of the deepest member. -/
def depthMembers : List (String × Json) → Nat
  | [] => 0
  | (_, v) :: ms => max (depth v) (depthMembers ms)

end

/-- The value of a member of an object. -/
def get? (j : Json) (name : String) : Option Json :=
  match j with
  | .obj ms => Table.find? ms name
  | _ => none

/-- Whether the value is null, an empty array or an empty object. -/
def isVoid : Json → Bool
  | .null => true
  | .arr xs => xs.isEmpty
  | .obj ms => ms.isEmpty
  | _ => false

end Json
end ApiTree
