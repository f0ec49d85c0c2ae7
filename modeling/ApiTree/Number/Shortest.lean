import ApiTree.Number.Basic

/-!
# ApiTree.Number.Shortest

The written form of a double: the fewest significant digits that read back as
the same double, and of those the decimal nearest to it.  The digits are found
on the decimal grids of 1, 2, … 17 digits, in exact integer arithmetic: the
first grid with a point inside the interval that rounds to the number wins.
-/

namespace ApiTree
namespace Double

/-- The numbers that round to a given positive double: `low`, `value` and
`high` over a common denominator; the ends belong to it iff `closed`. -/
structure Basin where
  low : Nat
  value : Nat
  high : Nat
  den : Nat
  closed : Bool

/-- The basin of `m * 2 ^ e`.  Below a power of two the neighbour is half as
far away as above it, except at the least exponent. -/
def basin (m : Nat) (e : Int) : Basin :=
  let down := if m = powerOf 2 52 ∧ minExponent < e then 1 else 2
  let unit := powerOf 2 (e - 2)
  { low := (4 * m - down) * unit
    value := 4 * m * unit
    high := (4 * m + 2) * unit
    den := powerOf 2 (2 - e)
    closed := m % 2 == 0 }

namespace Basin

/-- Whether `n * 10 ^ k` lies in the basin. -/
def holds (b : Basin) (n : Nat) (k : Int) : Bool :=
  let x := n * powerOf 10 k * b.den
  let scale := powerOf 10 (-k)
  if b.closed then b.low * scale ≤ x && x ≤ b.high * scale
  else b.low * scale < x && x < b.high * scale

/-- The decimal exponent of the leading digit. -/
def leading (b : Basin) : Int :=
  if b.den ≤ b.value then ((Nat.repr (b.value / b.den)).length : Int) - 1
  else
    let size := (Nat.repr (b.den / b.value)).length
    if b.den ≤ b.value * powerOf 10 (size - 1) then -((size : Int) - 1) else -(size : Int)

/-- The grid point of the basin nearest to the value on the grid of multiples
of `10 ^ k`, if one of the two neighbours of the value lies in the basin. -/
def onGrid? (b : Basin) (k : Int) : Option Nat :=
  let num := b.value * powerOf 10 (-k)
  let den := b.den * powerOf 10 k
  let floor := num / den
  let rest := num % den
  let (near, far) :=
    if 2 * rest < den then (floor, floor + 1)
    else if den < 2 * rest then (floor + 1, floor)
    else if floor % 2 = 0 then (floor, floor + 1) else (floor + 1, floor)
  if b.holds near k then some near
  else if b.holds far k then some far
  else none

/-- The first grid, from `digits` digits on, with a point in the basin. -/
def search (b : Basin) (top : Int) : Nat → Nat → Nat × Int
  | 0, digits => (b.value / b.den, top - digits)
  | tries + 1, digits =>
    let k := top - (digits : Int) + 1
    match b.onGrid? k with
    | some n => (n, k)
    | none => search b top tries (digits + 1)

/-- The shortest decimal `n * 10 ^ k` that rounds to the value. -/
def shortest (b : Basin) : Nat × Int := b.search b.leading 17 1

end Basin

/-- Decimal digits without trailing zeros, and the exponent of the first. -/
def significant (n : Nat) (k : Int) : List Char × Int :=
  let digits := (Nat.repr n).toList
  let kept := (digits.reverse.dropWhile (· == '0')).reverse
  (if kept.isEmpty then ['0'] else kept, k + (digits.length : Int) - 1)

/-- Places a decimal point: positional from `1e-4` up to below `1e16`, with at
least one digit after the point; otherwise scientific, with an exponent of two
digits or more. -/
def layout (digits : List Char) (top : Int) : String :=
  if -4 ≤ top ∧ top < 16 then
    if top < 0 then
      "0." ++ String.ofList (List.replicate (-top - 1).toNat '0' ++ digits)
    else
      let whole :=
        (digits ++ List.replicate (top.toNat + 1 - digits.length) '0').take (top.toNat + 1)
      let frac := digits.drop (top.toNat + 1)
      String.ofList whole ++ "." ++ (if frac.isEmpty then "0" else String.ofList frac)
  else
    let head := String.ofList (digits.take 1)
    let tail := digits.drop 1
    let mark := if top < 0 then "e-" else "e+"
    let size := Nat.repr top.natAbs
    head ++ (if tail.isEmpty then "" else "." ++ String.ofList tail) ++ mark ++
      (if size.length < 2 then "0" ++ size else size)

/-- The written form of a double. -/
def text : Double → String
  | .nan => "nan"
  | .infinite s => if s then "-inf" else "inf"
  | .finite s m e =>
    let body :=
      if m = 0 then "0.0"
      else
        let (n, k) := (basin m e).shortest
        let (digits, top) := significant n k
        layout digits top
    if s then "-" ++ body else body

end Double

/-- The written form of a number. -/
def Number.text : Number → String
  | .int n => toString n
  | .float x => x.text

end ApiTree
