import ApiTree.Number.Basic

/-!
# ApiTree.Number.Multiple

When one number is a whole multiple of another.  Two integers are compared as
integers; as soon as one of them is a double, the other is taken as the nearest
double, which fails for an integer beyond the doubles.
-/

namespace ApiTree
namespace Double

/-- Whether `x` is a whole multiple of a `y` that is not zero.  Only zero is a
multiple of an infinity. -/
def isMultipleOf (x y : Double) : Bool :=
  match x, y with
  | .finite _ m _, .infinite _ => m == 0
  | .finite _ m e, .finite _ m' e' =>
    let low := min e e'
    (m * powerOf 2 (e - low)) % (m' * powerOf 2 (e' - low)) == 0
  | _, _ => false

end Double

namespace Number

/-- The double that a number is taken for beside a double. -/
def toDouble? : Number → Option Double
  | .int n => Double.ofInt? n
  | .float x => some x

/-- Whether `a` is a whole multiple of a `b` that is not zero; `none` if an
integer is too large to be taken as a double. -/
def isMultipleOf? (a b : Number) : Option Bool :=
  match a, b with
  | .int m, .int n => some (m % n == 0)
  | _, _ => do
    let x ← a.toDouble?
    let y ← b.toDouble?
    return x.isMultipleOf y

end Number
end ApiTree
