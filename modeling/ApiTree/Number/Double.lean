import ApiTree.Number.Power

/-!
# ApiTree.Number.Double

Double precision numbers as exact values.  A finite number is a sign, a
mantissa below `2 ^ 53` and a power of two; the form is canonical, so two
numbers with the same bits are equal terms and comparison is integer
arithmetic.  `Double.ofRatio` rounds a quotient to the nearest double, a half
going to the even neighbour.
-/

namespace ApiTree

/-- A double precision number.  `finite s m e` is `m * 2 ^ e` with the sign
`s`; zero keeps its sign. -/
inductive Double where
  | nan
  | infinite (negative : Bool)
  | finite (negative : Bool) (mantissa : Nat) (exponent : Int)
deriving DecidableEq, Repr, Inhabited

namespace Double

/-- The least exponent of a finite number. -/
def minExponent : Int := -1074

/-- The greatest exponent of a finite number. -/
def maxExponent : Int := 971

/-- Zero with the given sign. -/
def zero (negative : Bool) : Double := .finite negative 0 minExponent

/-- `num / den` rounded to an integer, a half going to the even neighbour. -/
def roundQuotient (num den : Nat) : Nat :=
  let q := num / den
  let r := num % den
  if 2 * r < den then q
  else if den < 2 * r then q + 1
  else if q % 2 = 0 then q else q + 1

/-- The greatest `k` with `2 ^ k ≤ num / den`, for positive `num` and `den`. -/
def floorLog2 (num den : Nat) : Int :=
  let guess : Int := (num.log2 : Int) - (den.log2 : Int)
  if den * powerOf 2 guess ≤ num * powerOf 2 (-guess) then guess else guess - 1

/-- The double nearest to `num / den` with the given sign, for a positive
`den`; a quotient too large for the format gives an infinity. -/
def ofRatio (negative : Bool) (num den : Nat) : Double :=
  if num = 0 then zero negative
  else
    let e := max (floorLog2 num den - 52) minExponent
    let m := roundQuotient (num * powerOf 2 (-e)) (den * powerOf 2 e)
    let (m, e) := if m = powerOf 2 53 then (powerOf 2 52, e + 1) else (m, e)
    if maxExponent < e then .infinite negative else .finite negative m e

/-- The double nearest to `digits * 10 ^ power`.  Powers far outside the range
of the format are cut off before the power is computed. -/
def ofDecimal (negative : Bool) (digits : Nat) (power : Int) : Double :=
  if digits = 0 then zero negative
  else
    let size : Int := (Nat.repr digits).length
    if 400 < size + power then .infinite negative
    else if size + power < -400 then zero negative
    else ofRatio negative (digits * powerOf 10 power) (powerOf 10 (-power))

/-- The double nearest to an integer. -/
def ofInt (n : Int) : Double := ofRatio (n < 0) n.natAbs 1

/-- The double nearest to an integer, when that is finite. -/
def ofInt? (n : Int) : Option Double :=
  match ofInt n with
  | .finite s m e => some (.finite s m e)
  | _ => none

/-- Whether the number is zero, of either sign. -/
def isZero : Double → Bool
  | .finite _ m _ => m == 0
  | _ => false

/-- The integer that a finite number equals, if it equals one. -/
def toInt? : Double → Option Int
  | .finite s m e =>
    let n : Option Nat :=
      if 0 ≤ e then some (m * powerOf 2 e)
      else if m % powerOf 2 (-e) = 0 then some (m / powerOf 2 (-e)) else none
    n.map fun n => if s then -(n : Int) else n
  | _ => none

/-- The integer next to a finite number on the side of zero. -/
def truncated? : Double → Option Int
  | .finite s m e =>
    let n := if 0 ≤ e then m * powerOf 2 e else m / powerOf 2 (-e)
    some (if s then -(n : Int) else n)
  | _ => none

/-- Whether the number is finite and whole. -/
def isWhole (x : Double) : Bool := x.toInt?.isSome

end Double
end ApiTree
