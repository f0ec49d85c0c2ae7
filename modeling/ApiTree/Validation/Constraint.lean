import ApiTree.Number.Arithmetic
import ApiTree.Number.Multiple
import ApiTree.Sample.Value
import ApiTree.Shape.Basic
import ApiTree.Validation.Fit

/-!
# ApiTree.Validation.Constraint

Constraints on values: bounds and sizes that a shape knows, and constraints
around a shape, which stop the reading of a value that cannot have them.
-/

namespace ApiTree

/-! ## Bounds -/

/-- The word for the first bound that a number breaks, where `cmp` compares it with
bounds; what has no order breaks none. -/
def Bounds.brokenOrder? (b : Bounds) (cmp : Number → Option Ordering) : Option String :=
  let broken (bound : Option Number) (bad : Ordering → Bool) (kind : String) : Option String :=
    if (bound.bind cmp).any bad then some kind else none
  (broken b.le (· == .gt) "less_than_equal")
    |>.or (broken b.lt (· != .lt) "less_than")
    |>.or (broken b.ge (· == .lt) "greater_than_equal")
    |>.or (broken b.gt (· != .gt) "greater_than")

namespace Double

/-- Whether a number misses the multiples of another by more than a billionth of
itself. -/
def missesMultiple (x y : Double) : Bool :=
  let tolerance : Number := .float (x.abs.dividedBy 1000000000)
  let rest := (truncatedRemainder x y).abs
  tolerance.below (.float rest) && tolerance.below (.float (rest.sub y).abs)

end Double

namespace Take

/-- A value, unless there is a word for what is wrong with it. -/
def orWrong {α : Type} (kind : Option String) (a : α) : Take α := kind.elim (good a) wrong

/-- An integer within bounds. -/
def int (b : Bounds) (n : Int) : Take Value :=
  let misses := b.multipleOf.any fun m => (Number.int n).isMultipleOf? m == some false
  orWrong ((if misses then some "multiple_of" else none).or (b.brokenOrder? (Number.int n).cmp?))
    (.int n)

/-- A double within bounds. -/
def double (b : Bounds) (x : Double) : Take Value :=
  let misses := (b.multipleOf.bind Number.toDouble?).any x.missesMultiple
  orWrong ((if misses then some "multiple_of" else none).or (b.brokenOrder? (Number.float x).cmp?))
    (.float x)

/-- A decimal number within bounds, which count with the digits that they are
written with. -/
def decimal (b : Bounds) (d : Decimal) : Take Value :=
  let cmp (n : Number) : Option Ordering := (Decimal.ofWritten? n).map d.cmp
  let inOrder : Take Value := orWrong (b.brokenOrder? cmp) (.decimal d)
  match (b.multipleOf.bind Decimal.ofWritten?).filter (!·.isZero) with
  | none => inOrder
  | some m =>
    match d.dividesInto? m with
    | none => stop .longQuotient
    | some true => inOrder
    | some false => wrong "multiple_of"

end Take

/-! ## Sizes -/

namespace Size

/-- Whether a size is below the least one. -/
def isShort (z : Size) (n : Nat) : Bool := z.least.any (Number.int n).below

/-- Whether a size is above the greatest one. -/
def isLong (z : Size) (n : Nat) : Bool := z.most.any fun m => m.below (.int n)

/-- The word for a size that is out of bounds, after the word for the kind of the
value. -/
def broken? (z : Size) (kind : String) (n : Nat) : Option String :=
  if z.isLong n then some (kind ++ "too_long")
  else if z.isShort n then some (kind ++ "too_short")
  else none

end Size

namespace Value

/-- How many parts a value has: characters, bytes, items or entries. -/
def size? (c : Catalog) : Value → Option Nat
  | .text s => some s.length
  | .bytes s => some s.utf8ByteSize
  | .list vs | .tuple vs | .set _ vs => some vs.length
  | .dict es => some es.length
  | .member i _ (.str s) =>
    match c.form i with
    | .enum _ (some .text) => some s.length
    | _ => none
  | _ => none

/-- What a value counts as beside numbers. -/
inductive Counted where
  | number (n : Number)
  | decimal (d : Decimal)

/-- What a value counts as, if it can be compared with numbers. -/
def counted? (c : Catalog) : Value → Option Counted
  | .decimal d => some (.decimal d)
  | .member i _ v =>
    match c.form i with
    | .enum _ (some .int) => v.toNumber?.map .number
    | _ => none
  | v => v.toNumber?.map .number

/-- The order of what counts and a number; "not a number" has none. -/
def Counted.cmp? : Counted → Number → Option Ordering
  | .number a, n => a.cmp? n
  | .decimal d, n => d.cmpNumber? n

/-- Whether the division of what counts by a number leaves a rest; `none` if it
cannot be divided by it. -/
def Counted.leavesRest? : Counted → Number → Option Bool
  | .number a, n => some (a.isMultipleOf? n != some true)
  | .decimal d, .int n => some (!d.isMultipleOf n)
  | .decimal _, .float _ => none

end Value

namespace Limit

/-- The word for a constraint around a shape. -/
def word : Limit → String
  | .gt _ => "gt"
  | .ge _ => "ge"
  | .lt _ => "lt"
  | .le _ => "le"
  | .multipleOf _ => "multiple_of"
  | .minLength _ => "min_length"
  | .maxLength _ => "max_length"
  | .pattern _ => "pattern"

/-- Whether a value keeps a constraint, with the word for one that does not; `none`
if the value cannot have it. -/
def kept? (c : Catalog) (v : Value) : Limit → Option (Bool × String)
  | .gt n => (v.counted? c).map fun a => (a.cmp? n == some .gt, "greater_than")
  | .ge n => (v.counted? c).map fun a => ((a.cmp? n).any (· != .lt), "greater_than_equal")
  | .lt n => (v.counted? c).map fun a => (a.cmp? n == some .lt, "less_than")
  | .le n => (v.counted? c).map fun a => ((a.cmp? n).any (· != .gt), "less_than_equal")
  | .multipleOf n =>
    ((v.counted? c).bind (·.leavesRest? n)).map fun rest => (!rest, "multiple_of")
  | .minLength n => (v.size? c).map fun size => (n.atMost (.int size), "too_short")
  | .maxLength n => (v.size? c).map fun size => ((Number.int size).atMost n, "too_long")
  | .pattern _ => some (true, "")

/-- The value, if it keeps a constraint. -/
def take (c : Catalog) (l : Limit) (v : Value) : Take Value :=
  match l.kept? c v with
  | some (true, _) => .good v
  | some (false, kind) => .wrong kind
  | none => .stop (.cannotApply l.word (v.inText c))

end Limit

/-- Whether a pattern, if it is one, occurs in a text. -/
def matchesPattern (pattern text : String) : Bool :=
  match Pattern.ofText pattern with
  | .ok p => p.strict.occursIn text
  | .error _ => true

namespace Take

/-- A text of a size with a pattern.  Either of them is only asked of a text that is
made of characters. -/
def text (z : Size) (pattern : Option String) (s : String) : Take Value :=
  let asked := z != {} || pattern.isSome
  let misses := pattern.any fun p => !matchesPattern p s
  orWrong ((if asked && Half.occursIn s then some "string_unicode" else none)
    |>.or (z.broken? "string_" s.length)
    |>.or (if misses then some "string_pattern_mismatch" else none)) (.text s)

/-- A value of a shape with a pattern around it, which only texts can have. -/
def patterned (c : Catalog) (pattern kind : String) (v : Value) : Take Value :=
  match v with
  | .text s => orWrong (if matchesPattern pattern s then none else some "string_pattern_mismatch") v
  | v => stop (.cannotMatch (v.inText c) kind)

end Take
end ApiTree
