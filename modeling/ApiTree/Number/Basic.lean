import ApiTree.Number.Double

/-!
# ApiTree.Number.Basic

Numbers as they occur in JSON values: unbounded integers and doubles.  They
compare by value, exactly: an integer never loses digits by being compared
with a double.
-/

namespace ApiTree

/-- A number: an unbounded integer or a double. -/
inductive Number where
  | int (n : Int)
  | float (x : Double)
deriving DecidableEq, Repr, Inhabited

namespace Number

/-- The place of a number among the reals with both infinities: an integer
mantissa and a power of two, or an infinity.  `none` for "not a number". -/
inductive Place where
  | below
  | dyadic (mantissa : Int) (exponent : Int)
  | above
deriving DecidableEq, Repr

/-- Where a number lies; "not a number" lies nowhere. -/
def place? : Number → Option Place
  | .int n => some (.dyadic n 0)
  | .float .nan => none
  | .float (.infinite true) => some .below
  | .float (.infinite false) => some .above
  | .float (.finite s m e) => some (.dyadic (if s then -(m : Int) else m) e)

/-- The order of two places. -/
def Place.cmp : Place → Place → Ordering
  | .below, .below => .eq
  | .below, _ => .lt
  | _, .below => .gt
  | .above, .above => .eq
  | .above, _ => .gt
  | _, .above => .lt
  | .dyadic m e, .dyadic m' e' =>
    let low := min e e'
    compare (m * powerOf 2 (e - low)) (m' * powerOf 2 (e' - low))

/-- The order of two numbers, when both lie somewhere. -/
def cmp? (a b : Number) : Option Ordering := do
  let p ← a.place?
  let q ← b.place?
  return p.cmp q

/-- Equality by value; "not a number" equals nothing. -/
def same (a b : Number) : Bool := a.cmp? b == some .eq

/-- Strict order by value; "not a number" is neither below nor above. -/
def below (a b : Number) : Bool := a.cmp? b == some .lt

/-- Weak order by value. -/
def atMost (a b : Number) : Bool := a.below b || a.same b

/-- Whether the number is zero. -/
def isZero : Number → Bool
  | .int n => n == 0
  | .float x => x.isZero

end Number
end ApiTree
