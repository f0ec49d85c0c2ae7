import ApiTree.Json.Basic

/-!
# ApiTree.Ty.Basic

The types that parameters and payloads have.  Declared types are named by
their place in a catalogue of declarations (`ApiTree.Ty.Catalog`), so a type
is a finite term even where declarations refer to each other in a circle.

`Ty.same` is the equality of types: the members of a union and the values of a
literal type form a set, everything else compares part by part.
-/

namespace ApiTree

/-- A type without parts. -/
inductive Scalar where
  | any
  | object
  | null
  | int
  | bool
  | float
  | str
  | bytes
  | date
  | datetime
  | uuid
  | decimal
deriving DecidableEq, Repr, Inhabited

/-- A collection type whose items are left open. -/
inductive Bare where
  | list
  | dict
  | tuple
  | set
deriving DecidableEq, Repr

/-- A collection whose items share a type. -/
inductive Collector where
  | list
  | sequence
  | set
  | frozenset
  /-- A tuple of any length. -/
  | run
deriving DecidableEq, Repr

/-- A collection of entries. -/
inductive Keyed where
  | dict
  | mapping
deriving DecidableEq, Repr

/-- How a union is written: by name or with bars. -/
inductive UnionStyle where
  | named
  | bars
deriving DecidableEq, Repr

/-- A constraint on the values of a type. -/
inductive Limit where
  | gt (n : Number)
  | ge (n : Number)
  | lt (n : Number)
  | le (n : Number)
  | multipleOf (n : Number)
  | minLength (n : Number)
  | maxLength (n : Number)
  | pattern (p : String)
deriving DecidableEq, Repr

/-- What is said about a field beside its type. -/
structure FieldSpec where
  /-- In the order of the constructors of `Limit`. -/
  limits : List Limit := []
  title : Option String := none
  description : Option String := none
  discriminator : Option String := none
  /-- The name of the field in encoded form, if it differs. -/
  wireName : Option String := none
deriving DecidableEq, Repr, Inhabited

/-- A note on a type. -/
inductive Note where
  /-- Free text, without effect. -/
  | text (s : String)
  | limit (l : Limit)
  | interval (gt ge lt le : Option Number)
  | field (spec : FieldSpec)
deriving DecidableEq, Repr

/-- A type. -/
inductive Ty where
  /-- No content at all. -/
  | nothing
  | scalar (s : Scalar)
  | bare (b : Bare)
  /-- A declared type. -/
  | cls (index : Nat)
  | each (c : Collector) (item : Ty)
  | tuple (items : List Ty)
  | keyed (k : Keyed) (key value : Ty)
  | union (style : UnionStyle) (members : List Ty)
  | literal (values : List Json)
  | annotated (base : Ty) (notes : List Note)
deriving Repr, Inhabited

namespace Limit

/-- Equality of constraints; numbers compare by value. -/
def same : Limit → Limit → Bool
  | .gt a, .gt b | .ge a, .ge b | .lt a, .lt b | .le a, .le b
  | .multipleOf a, .multipleOf b | .minLength a, .minLength b | .maxLength a, .maxLength b =>
    a.same b
  | .pattern a, .pattern b => a == b
  | _, _ => false

end Limit

/-- Whether two lists agree item by item. -/
def agree {α : Type} (f : α → α → Bool) : List α → List α → Bool
  | [], [] => true
  | a :: as, b :: bs => f a b && agree f as bs
  | _, _ => false

namespace Note

/-- Equality of optional bounds. -/
def sameBound : Option Number → Option Number → Bool
  | none, none => true
  | some a, some b => a.same b
  | _, _ => false

/-- Equality of notes. -/
def same : Note → Note → Bool
  | .text a, .text b => a == b
  | .limit a, .limit b => a.same b
  | .interval a b c d, .interval a' b' c' d' =>
    sameBound a a' && sameBound b b' && sameBound c c' && sameBound d d'
  | .field a, .field b =>
    agree Limit.same a.limits b.limits && a.title == b.title &&
      a.description == b.description && a.discriminator == b.discriminator &&
      a.wireName == b.wireName
  | _, _ => false

/-- The constraints that a note puts on values. -/
def limits : Note → List Limit
  | .text _ => []
  | .limit l => [l]
  | .interval a b c d =>
    (a.map Limit.gt).toList ++ (b.map Limit.ge).toList ++ (c.map Limit.lt).toList ++
      (d.map Limit.le).toList
  | .field spec => spec.limits

/-- The last of the given properties among what notes say about a field. -/
def last? {α : Type} (get : FieldSpec → Option α) (notes : List Note) : Option α :=
  notes.foldl (fun found n =>
    match n with
    | .field spec => (get spec).or found
    | _ => found) none

end Note

namespace Ty

/-- Equality of the values of a literal type: the same kind and value. -/
def sameLiteral (a b : Json) : Bool := a.kind == b.kind && a.looseEq b

mutual

/-- Equality of types. -/
def same : Ty → Ty → Bool
  | .nothing, t => match t with
    | .nothing => true
    | _ => false
  | .scalar a, t => match t with
    | .scalar b => a == b
    | _ => false
  | .bare a, t => match t with
    | .bare b => a == b
    | _ => false
  | .cls i, t => match t with
    | .cls j => i == j
    | _ => false
  | .each c a, t => match t with
    | .each d b => c == d && same a b
    | _ => false
  | .tuple as, t => match t with
    | .tuple bs => sameItems as bs
    | _ => false
  | .keyed k a b, t => match t with
    | .keyed l c d => k == l && same a c && same b d
    | _ => false
  | .union _ as, t => match t with
    | .union _ bs => eachIn as bs && bs.all fun b => someSame as b
    | _ => false
  | .literal vs, t => match t with
    | .literal ws =>
      vs.all (fun v => ws.any (sameLiteral v)) && ws.all (fun w => vs.any (sameLiteral w))
    | _ => false
  | .annotated a ns, t => match t with
    | .annotated b ms => same a b && agree Note.same ns ms
    | _ => false
termination_by structural t => t

/-- Item by item equality. -/
def sameItems : List Ty → List Ty → Bool
  | [], [] => true
  | a :: as, b :: bs => same a b && sameItems as bs
  | _, _ => false

/-- Whether each type of the first list equals one of the second. -/
def eachIn : List Ty → List Ty → Bool
  | [], _ => true
  | a :: as, bs => bs.any (fun b => same a b) && eachIn as bs

/-- Whether one of the types equals `b`. -/
def someSame : List Ty → Ty → Bool
  | [], _ => false
  | a :: as, b => same a b || someSame as b

end

instance : BEq Ty := ⟨same⟩

/-! ## Building types -/

/-- The type of no value, where a type is needed. -/
def asType : Ty → Ty
  | .nothing => .scalar .null
  | t => t

/-- The members that a type brings into a union. -/
def membersInUnion : Ty → List Ty
  | .union _ ms => ms
  | t => [asType t]

/-- The first of each group of equal elements. -/
def distinct {α : Type} (f : α → α → Bool) (xs : List α) : List α :=
  (xs.foldl (fun acc x => if acc.any (f x) then acc else x :: acc) []).reverse

/-- The union of types: flat, without repetition, and no union at all if one
type is left. -/
def unionOf (style : UnionStyle) (ts : List Ty) : Ty :=
  match distinct same (ts.flatMap membersInUnion) with
  | [t] => t
  | ms => .union style ms

/-- A type or nothing. -/
def optional (t : Ty) : Ty := unionOf .named [t, .scalar .null]

/-- Whether a type forces a union written with bars to be one by name. -/
def forcesNamed : Ty → Bool
  | .union .named _ | .literal _ | .annotated .. | .each .sequence _ | .keyed .mapping .. => true
  | _ => false

/-- The union of types written with bars. -/
def barred (ts : List Ty) : Ty :=
  unionOf (if ts.any forcesNamed then .named else .bars) ts

/-- The type of the given values, each once. -/
def literalOf (values : List Json) : Ty := .literal (distinct sameLiteral values)

/-- A type with notes; notes on notes are put in one row. -/
def annotatedWith (t : Ty) (notes : List Note) : Ty :=
  match asType t with
  | .annotated base ns => .annotated base (ns ++ notes)
  | base => .annotated base notes

/-- The type below the notes. -/
def stripped : Ty → Ty
  | .annotated t _ => t
  | t => t

/-- The notes on a type. -/
def notes : Ty → List Note
  | .annotated _ ns => ns
  | _ => []

/-- An integer type between two bounds. -/
def intBetween (low high : Int) : Ty :=
  .annotated (.scalar .int) [.interval none (some (.int low)) none (some (.int high))]

/-- The signed integers of a width. -/
def signed (bits : Nat) : Ty := intBetween (-(powerOf 2 (bits - 1))) (powerOf 2 (bits - 1) - 1)

/-- The unsigned integers of a width. -/
def unsigned (bits : Nat) : Ty := intBetween 0 (powerOf 2 bits - 1)

/-- Whether the members of a union include null. -/
def hasNull (members : List Ty) : Bool := members.any (same (.scalar .null))

/-- The members of a union that are not null. -/
def nonNull (members : List Ty) : List Ty := members.filter fun t => !same (.scalar .null) t

end Ty
end ApiTree
