import ApiTree.Text.CharClass

/-!
# ApiTree.Number.Numeral

Integers as people write them: a sign and decimal digits of any script, with
blanks around them and single underscores between the digits.
-/

namespace ApiTree
namespace Numeral

/-- The value of a hexadecimal digit. -/
def hexValue? (c : Char) : Option Nat :=
  if '0' ≤ c ∧ c ≤ '9' then some (c.toNat - 48)
  else if 'a' ≤ c ∧ c ≤ 'f' then some (c.toNat - 87)
  else if 'A' ≤ c ∧ c ≤ 'F' then some (c.toNat - 55)
  else none

/-- The value of a decimal digit of any script.  The digits of a script follow
each other from zero on. -/
def digitValue? (c : Char) : Option Nat :=
  if c.toNat < 0x80 then (if c.isDigit then some (c.toNat - 48) else none)
  else (CharClass.digitRanges.toList.find? fun (lo, hi) => lo ≤ c.toNat ∧ c.toNat ≤ hi).map
    fun (lo, _) => (c.toNat - lo) % 10

/-- The number that digits write in a base; other characters count as zero. -/
def ofDigits (base : Nat) (cs : List Char) : Nat :=
  cs.foldl (fun n c => n * base + (hexValue? c).getD 0) 0

/-- Up to `n` characters of a kind from the front. -/
def takeUpTo (n : Nat) (ok : Char → Bool) (cs : List Char) : List Char :=
  (cs.take n).takeWhile ok

/-- The blanks around a number: of ASCII the space and what separates lines. -/
def isBlank (c : Char) : Bool :=
  if c.toNat < 0x80 then c == ' ' || (9 ≤ c.toNat && c.toNat ≤ 13) else CharClass.isBlank c

/-- Text without the characters of a kind at its ends. -/
def trim (drop : Char → Bool) (cs : List Char) : List Char :=
  ((cs.dropWhile drop).reverse.dropWhile drop).reverse

/-- A sign and what follows it; whether the sign is a minus. -/
def signed (cs : List Char) : Bool × List Char :=
  match cs with
  | '-' :: rest => (true, rest)
  | '+' :: rest => (false, rest)
  | cs => (false, cs)

/-- The values of digits with single underscores between them. -/
def spaced? (value? : Char → Option Nat) : List Char → Option (List Nat)
  | [] => none
  | [c] => (value? c).map fun d => [d]
  | c :: '_' :: rest => do return (← value? c) :: (← spaced? value? rest)
  | c :: rest => do return (← value? c) :: (← spaced? value? rest)

/-- The number of digit values in a base. -/
def ofValues (base : Nat) (ds : List Nat) : Nat := ds.foldl (fun n d => n * base + d) 0

/-- The number with a sign. -/
def withSign (negative : Bool) (n : Nat) : Int := if negative then -(n : Int) else n

/-- The most digits of an integer. -/
def mostDigits : Nat := 4300

/-- The integer that a text of not too many digits writes. -/
def int? (cs : List Char) : Option Int :=
  let (negative, digits) := signed (trim isBlank cs)
  ((spaced? digitValue? digits).filter (·.length ≤ mostDigits)).map fun ds =>
    withSign negative (ofValues 10 ds)

/-! ## Integers in data

Data holds integers in a narrower form: ASCII digits, of which the first is no
zero, and not too many of them.  What differs from that form is cleaned once. -/

/-- What a text is that should write an integer. -/
inductive Written where
  | number (n : Int)
  | tooLong
  | other
deriving DecidableEq, Repr

/-- The integer that a text writes in the narrow form. -/
def narrow (cs : List Char) : Written :=
  let (negative, rest) := match cs with
    | '-' :: rest => (true, rest)
    | cs => (false, cs)
  let ds := rest.takeWhile Char.isDigit
  if ds.isEmpty then .other
  else if ds.head? = some '0' then
    if rest.length = 1 then .number 0 else .other
  else if mostDigits < ds.length + (if negative then 1 else 0) then .tooLong
  else if ds.length = rest.length then .number (withSign negative (ofDigits 10 ds))
  else .other

/-- A number of at least one digit without the zeros it begins with, among which
underscores can stand; a zero before the point is kept.  `last` is the character
before. -/
def withoutZeros? (last : Char) : List Char → Option (List Char)
  | [] => some [last]
  | c :: rest =>
    if c == '0' || c == '_' then withoutZeros? c rest
    else if c.isDigit then some (c :: rest)
    else if c == '.' then some (last :: c :: rest)
    else none

/-- A number without the point and the zeros it ends with. -/
def withoutPlaces (cs : List Char) : List Char :=
  let whole := cs.takeWhile (· != '.')
  match cs.drop whole.length with
  | _ :: z :: zs => if (z :: zs).all (· == '0') then whole else cs
  | _ => cs

/-- Whether two characters of a kind stand beside each other. -/
def doubled (c : Char) : List Char → Bool
  | a :: b :: rest => (a == c && b == c) || doubled c (b :: rest)
  | _ => false

/-- A number without the underscores inside it, unless one is out of place. -/
def withoutUnderscores (cs : List Char) : List Char :=
  if cs.head? == some '_' || cs.getLast? == some '_' || doubled '_' cs then cs
  else cs.filter (· != '_')

/-- The narrow form of a number that has blanks around it, a plus, zeros at its
ends or underscores. -/
def cleaned? (cs : List Char) : Option (List Char) := do
  let cs ← match trim isBlank cs with
    | '+' :: '-' :: _ => none
    | '+' :: rest => some rest
    | cs => some cs
  let cs ← match cs with
    | '0' :: rest => withoutZeros? '0' rest
    | c :: rest => if c.isDigit || c == '-' then some (c :: rest) else none
    | [] => none
  return withoutUnderscores (withoutPlaces cs)

/-- The integer that a text writes in data. -/
def inData (cs : List Char) : Written :=
  match narrow cs with
  | .other =>
    match cleaned? cs with
    | some cs => narrow cs
    | none => .other
  | w => w

end Numeral
end ApiTree
