import ApiTree.Number.Arithmetic
import ApiTree.Number.Multiple

/-!
# ApiTree.Number.Mixed

Sums, differences and remainders of numbers of both kinds.  Integers stay exact
among themselves; beside a double an integer counts as the double nearest to it,
and one that is too large for that has no result.
-/

namespace ApiTree
namespace Number

/-- What comes of two numbers, for integers and for doubles. -/
def combine? (ofInts : Int → Int → Int) (ofDoubles : Double → Double → Double) :
    Number → Number → Option Number
  | .int a, .int b => some (.int (ofInts a b))
  | a, b => do return .float (ofDoubles (← a.toDouble?) (← b.toDouble?))

/-- The sum. -/
def add? : Number → Number → Option Number := combine? (· + ·) Double.add

/-- The difference. -/
def sub? : Number → Number → Option Number := combine? (· - ·) Double.sub

/-- The remainder that has the sign of the divisor, which is not zero. -/
def remainder? : Number → Number → Option Number := combine? Int.fmod Double.flooredRemainder

end Number
end ApiTree
