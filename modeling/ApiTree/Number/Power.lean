/-!
# ApiTree.Number.Power

Powers of whole numbers by integers.  A negative exponent counts as zero, so a
factor of `b ^ e` is `powerOf b e` above a fraction line and `powerOf b (-e)`
below it.
-/

namespace ApiTree

/-- The power of a base; one when the exponent is negative. -/
def powerOf (base : Nat) (exponent : Int) : Nat := Nat.pow base exponent.toNat

end ApiTree
