import ApiTree.Sample.Instance
import ApiTree.Sample.Source

/-!
# ApiTree.Sample.Generator

Generators of values by type.  The caller's generator for a type comes first,
then the samples that its declaration gives, then the structure of the type.
A model that gives no samples has no generator, so neither has a type with such
a part; all generators inside a type are found before anything is drawn.
-/

namespace ApiTree

/-- Generators of the caller, by the identity of the type. -/
abbrev Generators (σ : Type) := Table String (Draw σ Value)

/-- The least and the greatest value of an integer type, as they are written: a
bound that is a double makes the values doubles. -/
structure Span where
  low : Number
  high : Number
deriving DecidableEq, Repr, Inhabited

namespace Span

/-- The span of integers without bounds. -/
def widest : Span := ⟨.int (-powerOf 2 64), .int (powerOf 2 64)⟩

/-- The number one above or below another. -/
def next (n : Number) (step : Int) : Number := (n.add? (.int step)).getD n

/-- The span after one more constraint, which takes the place of an earlier one
on the same side. -/
def limit (r : Span) : Limit → Span
  | .ge n => { r with low := n }
  | .gt n => { r with low := next n 1 }
  | .le n => { r with high := n }
  | .lt n => { r with high := next n (-1) }
  | _ => r

/-- The span after one more note.  An exclusive bound of an interval counts more
than an inclusive one. -/
def note (r : Span) : Note → Span
  | .interval gt ge lt le =>
    ((ge.map Limit.ge).toList ++ (gt.map Limit.gt).toList ++ (le.map Limit.le).toList ++
      (lt.map Limit.lt).toList).foldl limit r
  | n => n.limits.foldl limit r

/-- The span of an integer type with notes. -/
def ofNotes (notes : List Note) : Span := notes.foldl note widest

end Span

namespace Generator

variable {σ : Type} [RandomSource σ]

/-- Numbers within a span. -/
def int (r : Span) : Draw σ Value := do return .ofNumber (← Draw.bounded r.low r.high)

/-- Values of a scalar type, if there is a generator for it. -/
def scalar? : Scalar → Option (Draw σ Value)
  | .null => some (return .null)
  | .int => some (int .widest)
  | .bool => some do return .bool ((← Draw.thousandths) < 500)
  | .float => some do return .float (← Draw.double)
  | .str => some do return .text (← Draw.text)
  | _ => none

/-- The largest number of items that are drawn for a collection. -/
def mostItems : Nat := 5

/-- Collections of up to five items. -/
def each (c : Catalog) (k : Collector) (item : Draw σ Value) : Draw σ Value := do
  match k with
  | .list | .sequence => return .list (← Draw.upTo mostItems item)
  | .run => return .tuple (← Draw.upTo mostItems item)
  | .set | .frozenset =>
    let vs ← Draw.upTo mostItems do
      let v ← item
      v.checkKey c
      return v
    return .setOf (k = .frozenset) vs

/-- Values one after the other. -/
def row : List (Draw σ Value) → Draw σ (List Value)
  | [] => return []
  | g :: gs => do
    let v ← g
    let vs ← row gs
    return v :: vs

/-- Up to five entries; each draws its key and then its value. -/
def entries (c : Catalog) (key value : Draw σ Value) : Draw σ Value := do
  let es ← Draw.upTo mostItems do
    let k ← key
    let v ← value
    k.checkKey c
    return (k, v)
  return .dictOf es

/-- A branch, and then a value of it. -/
def oneOf (branches : List (Draw σ Value)) : Draw σ Value := do
  let g ← Draw.choice branches
  g

end Generator

namespace Catalog

variable {σ : Type} [RandomSource σ]

/-- The samples of a declared type, or the members of an enumeration. -/
def declaredGenerator? (c : Catalog) (i : Nat) : Option (Draw σ Value) :=
  match (c.decl i).samples, c.form i with
  | some s, _ => some do
    let j ← Draw.choice s.values
    c.instanceOf i s.raw j
  | none, .enum members _ => some do
    let (n, v) ← Draw.choice (Form.distinctMembers members)
    return .member i n v
  | none, _ => none

/-- The fault of a type without a generator; `whole` is the type that it stands
in, unless it stands for itself. -/
def noGenerator (c : Catalog) (whole : Option Ty) (t : Ty) : Fault :=
  .noGenerator (match whole with
    | none => c.label t
    | some w => c.label w ++ " (element " ++ c.label t ++ ")")

mutual

/-- The generator of a type inside a whole. -/
def generatorWithin (c : Catalog) (own : Generators σ) (whole : Option Ty) (t : Ty) :
    Except Fault (Draw σ Value) :=
  match Table.find? own (c.identity t) with
  | some g => .ok g
  | none =>
    let missing : Except Fault (Draw σ Value) := .error (c.noGenerator whole t)
    let inside := whole.or (some t)
    match t with
    | .nothing | .bare _ => missing
    | .scalar s => (Generator.scalar? s).elim missing .ok
    | .cls i => (c.declaredGenerator? i).elim missing .ok
    | .each k u => do return Generator.each c k (← generatorWithin c own inside u)
    | .tuple ts => do
      let gs ← generatorsWithin c own inside ts
      return do return .tuple (← Generator.row gs)
    | .keyed _ k v => do
      let key ← generatorWithin c own inside k
      let value ← generatorWithin c own inside v
      return Generator.entries c key value
    | .union _ ts => do return Generator.oneOf (← generatorsWithin c own inside ts)
    | .literal vs => .ok do return .ofJson (← Draw.choice vs)
    | .annotated u ns =>
      match u with
      | .scalar .int => .ok (Generator.int (.ofNotes ns))
      | u => generatorWithin c own inside u

/-- The generators of types inside a whole. -/
def generatorsWithin (c : Catalog) (own : Generators σ) (whole : Option Ty) :
    List Ty → Except Fault (List (Draw σ Value))
  | [] => .ok []
  | t :: ts => do
    let g ← generatorWithin c own whole t
    let gs ← generatorsWithin c own whole ts
    return g :: gs

end

/-- The generator of a type. -/
def generator (c : Catalog) (own : Generators σ) (t : Ty) : Except Fault (Draw σ Value) :=
  c.generatorWithin own none t

end Catalog
end ApiTree
