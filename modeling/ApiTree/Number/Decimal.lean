import ApiTree.Number.Basic
import ApiTree.Number.Numeral
import ApiTree.Number.Shortest
import ApiTree.Text.Case

/-!
# ApiTree.Number.Decimal

Decimal numbers that keep the digits they are written with: 1.5 and 1.50 are
equal but not the same.  `Decimal.text` writes the digits back, and a quotient
is rounded to 28 digits, a half going to the even neighbour.
-/

namespace ApiTree

/-- The decimal number `digits * 10 ^ exponent` with a sign. -/
structure Decimal where
  negative : Bool
  digits : Nat
  exponent : Int
deriving DecidableEq, Repr, Inhabited

namespace Decimal

/-- How many digits a number has that is not zero; zero has one. -/
def width (n : Nat) : Nat := (Nat.repr n).length

/-- The power of ten of the first digit. -/
def top (d : Decimal) : Int := d.exponent + width d.digits - 1

/-- Whether the number is zero. -/
def isZero (d : Decimal) : Bool := d.digits == 0

/-- An integer. -/
def ofInt (n : Int) : Decimal := ⟨n < 0, n.natAbs, 0⟩

/-- The exact value of a number, if it is finite. -/
def ofNumber? : Number → Option Decimal
  | .int n => some (ofInt n)
  | .float (.finite s m e) =>
    some (if 0 ≤ e then ⟨s, m * powerOf 2 e, 0⟩ else ⟨s, m * powerOf 5 (-e), e⟩)
  | .float _ => none

/-! ## Order -/

/-- The order of two numbers without their signs.  Only numbers that begin at
the same power of ten are brought to one exponent. -/
def compareSizes (a b : Decimal) : Ordering :=
  if a.isZero || b.isZero then compare (!a.isZero) (!b.isZero)
  else if a.top != b.top then compare a.top b.top
  else
    let low := min a.exponent b.exponent
    compare (a.digits * powerOf 10 (a.exponent - low)) (b.digits * powerOf 10 (b.exponent - low))

/-- The order of two numbers by value. -/
def cmp (a b : Decimal) : Ordering :=
  let below (d : Decimal) : Bool := d.negative && !d.isZero
  match below a, below b with
  | true, false => .lt
  | false, true => .gt
  | true, true => compareSizes b a
  | false, false => compareSizes a b

/-- Equality by value. -/
def same (a b : Decimal) : Bool := cmp a b == .eq

/-- The order of a decimal number and a number; "not a number" has none. -/
def cmpNumber? (a : Decimal) : Number → Option Ordering
  | .float .nan => none
  | .float (.infinite negative) => some (if negative then .gt else .lt)
  | n => (ofNumber? n).map (cmp a)

/-! ## Written forms -/

/-- Where the point stands: from the sixth place before the first digit on, a
number without zeros to be added at its end is written in full. -/
def text (d : Decimal) : String :=
  let ds := (Nat.repr d.digits).toList
  let point := d.exponent + ds.length
  let body :=
    if d.exponent ≤ 0 ∧ -6 < point then
      if point ≤ 0 then "0." ++ String.ofList (List.replicate (-point).toNat '0' ++ ds)
      else
        let places := ds.drop point.toNat
        String.ofList (ds.take point.toNat) ++
          if places.isEmpty then "" else "." ++ String.ofList places
    else
      let power := point - 1
      String.ofList (ds.take 1) ++
        (if ds.length = 1 then "" else "." ++ String.ofList (ds.drop 1)) ++
        "E" ++ (if power < 0 then "" else "+") ++ toString power
  if d.negative then "-" ++ body else body

/-- What a text is that should write a decimal number. -/
inductive Written where
  | number (d : Decimal)
  /-- An infinity, or "not a number". -/
  | special
  | other
deriving DecidableEq, Repr

/-- The greatest power of ten of a first digit. -/
def greatestTop : Int := 999999999999999999

/-- The least power of ten of a last digit. -/
def leastExponent : Int := -1999999999999999997

/-- Digits with at most one point: the number without the point, and the places
after it. -/
def digitsOf? (cs : List Char) : Option (Nat × Nat) :=
  let whole := cs.takeWhile Char.isDigit
  let places? : Option (List Char) := match cs.dropWhile Char.isDigit with
    | [] => some []
    | '.' :: rest => if rest.all Char.isDigit then some rest else none
    | _ => none
  places?.bind fun places =>
    if whole.isEmpty && places.isEmpty then none
    else some (Numeral.ofDigits 10 (whole ++ places), places.length)

/-- Whether a text is a word for a number that is not finite. -/
def isSpecial (cs : List Char) : Bool :=
  let word := (Case.lower (String.ofList cs)).toList
  let rest := word.dropWhile Char.isAlpha
  let name := String.ofList (word.takeWhile Char.isAlpha)
  if ["inf", "infinity"].contains name then rest.isEmpty
  else ["nan", "snan"].contains name && rest.all Char.isDigit

/-- The number that digits, a point and a power of ten write. -/
def ofUnsigned? (negative : Bool) (cs : List Char) : Option Decimal := do
  let isMark (c : Char) : Bool := c == 'e' || c == 'E'
  let (digits, places) ← digitsOf? (cs.takeWhile (!isMark ·))
  let power : Int ← match cs.dropWhile (!isMark ·) with
    | [] => some 0
    | _ :: rest =>
      let (down, ds) := Numeral.signed rest
      if ds.isEmpty || !ds.all Char.isDigit then none
      else some (Numeral.withSign down (Numeral.ofDigits 10 ds))
  let d : Decimal := ⟨negative, digits, power - places⟩
  if d.exponent < leastExponent || greatestTop < d.top then none else return d

/-- A character as one of ASCII: digits of any script count as their values, and
all blanks as spaces. -/
def plain? (c : Char) : Option Char :=
  if 0 < c.toNat && c.toNat < 0x80 then some c
  else if CharClass.isBlank c then some ' '
  else (Numeral.digitValue? c).map fun n => Char.ofNat (48 + n)

/-- The number that a text writes: a sign, digits with a point and a power of
ten, blanks around them, and underscores anywhere. -/
def read (s : String) : Written :=
  let cs := (Numeral.trim Numeral.isBlank s.toList).filter (· != '_')
  match cs.mapM plain? with
  | none => .other
  | some cs =>
    let (negative, cs) := Numeral.signed cs
    if isSpecial cs then .special
    else match ofUnsigned? negative cs with
      | some d => .number d
      | none => .other

/-- The decimal number with the digits that a number is written with. -/
def ofWritten? (n : Number) : Option Decimal :=
  match read n.text with
  | .number d => some d
  | _ => none

/-! ## Quotients and remainders -/

/-- How many digits a result has at most. -/
def precision : Nat := 28

/-- The least power of ten of the last digit of a result. -/
def leastOfResult : Int := -1000026

/-- Whether `a / b` is a whole number, the quotient being rounded first, for a
`b` that is not zero; `none` if the quotient has more digits than a result
can have.  A quotient too small for a result is zero. -/
def dividesInto? (a b : Decimal) : Option Bool :=
  if a.isZero then some true
  else
    let shift : Int := precision + width b.digits - width a.digits
    let num := a.digits * powerOf 10 shift
    let den := b.digits * powerOf 10 (-shift)
    let exact := num % den == 0
    let quotient := num / den
    -- the quotient has 28 or 29 digits before it is rounded
    let extra := width quotient - precision
    let kept := Double.roundQuotient num (den * powerOf 10 extra)
    let exponent : Int := a.exponent - b.exponent - shift + extra
    let (digits, exponent) := if exact then (quotient, exponent - extra) else (kept, exponent)
    if (precision : Int) ≤ exponent + width digits - 1 then none
    else if 0 ≤ exponent || exponent + width digits < leastOfResult then some true
    else if width digits ≤ (-exponent).toNat then some false
    else some (digits % powerOf 10 (-exponent) == 0)

/-- Whether the remainder of a division by an integer that is not zero is zero. -/
def isMultipleOf (d : Decimal) (n : Int) : Bool :=
  d.isZero ||
    if 0 ≤ d.exponent then
      -- further powers of ten bring no more factors of `n`
      (d.digits * powerOf 10 (min d.exponent (width n.natAbs * 4 + 8))) % n.natAbs == 0
    else
      width d.digits > (-d.exponent).toNat &&
        d.digits % (n.natAbs * powerOf 10 (-d.exponent)) == 0

end Decimal
end ApiTree
