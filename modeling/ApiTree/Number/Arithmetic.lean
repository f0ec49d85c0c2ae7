import ApiTree.Number.Double

/-!
# ApiTree.Number.Arithmetic

Sums, products and remainders of doubles.  The exact result is computed first
and then rounded once.
-/

namespace ApiTree
namespace Double

/-- The double nearest to `m * 2 ^ e`; a zero gets the sign `negativeZero`. -/
def ofDyadic (negativeZero : Bool) (m e : Int) : Double :=
  if m = 0 then zero negativeZero
  else ofRatio (m < 0) (m.natAbs * powerOf 2 e) (powerOf 2 (-e))

/-- Whether the sign bit is set. -/
def isNegative : Double → Bool
  | .nan => false
  | .infinite s => s
  | .finite s _ _ => s

/-- The number with the other sign. -/
def neg : Double → Double
  | .nan => .nan
  | .infinite s => .infinite !s
  | .finite s m e => .finite (!s) m e

/-- The absolute value. -/
def abs : Double → Double
  | .nan => .nan
  | .infinite _ => .infinite false
  | .finite _ m e => .finite false m e

/-- The sum. -/
def add : Double → Double → Double
  | .nan, _ | _, .nan => .nan
  | .infinite s, .infinite t => if s = t then .infinite s else .nan
  | .infinite s, .finite .. => .infinite s
  | .finite .., .infinite t => .infinite t
  | .finite s m e, .finite t n f =>
    let low := min e f
    let a : Int := (m : Int) * powerOf 2 (e - low)
    let b : Int := (n : Int) * powerOf 2 (f - low)
    ofDyadic (s && t) ((if s then -a else a) + (if t then -b else b)) low

/-- The difference. -/
def sub (x y : Double) : Double := add x (neg y)

/-- The product. -/
def mul : Double → Double → Double
  | .nan, _ | _, .nan => .nan
  | .infinite s, .infinite t => .infinite (s != t)
  | .infinite s, .finite t n _ => if n = 0 then .nan else .infinite (s != t)
  | .finite s m _, .infinite t => if m = 0 then .nan else .infinite (s != t)
  | .finite s m e, .finite t n f =>
    let p : Int := (m : Int) * n
    ofDyadic (s != t) (if s != t then -p else p) (e + f)

/-- The remainder that has the sign of `x` and a magnitude below that of `y`. -/
def truncatedRemainder : Double → Double → Double
  | .finite s m e, .finite _ n f =>
    if n = 0 then .nan
    else
      let low := min e f
      let r := (m * powerOf 2 (e - low)) % (n * powerOf 2 (f - low))
      ofDyadic s (if s then -(r : Int) else r) low
  | .finite s m e, .infinite _ => .finite s m e
  | _, _ => .nan

/-- The remainder that has the sign of `y`, a `y` that is not zero. -/
def flooredRemainder (x y : Double) : Double :=
  let r := truncatedRemainder x y
  if r = .nan then .nan
  else if r.isZero then zero y.isNegative
  else if r.isNegative != y.isNegative then add r y
  else r

/-- The number divided by a positive integer. -/
def dividedBy (x : Double) (n : Nat) : Double :=
  match x with
  | .finite s m e => ofRatio s (m * powerOf 2 e) (n * powerOf 2 (-e))
  | x => x

end Double
end ApiTree
