import ApiTree.Number.Numeral

/-!
# ApiTree.Text.Uuid

Universally unique identifiers as texts: 32 hexadecimal digits, alone, in groups
with hyphens, in braces, or as a name.  `Uuid.read?` gives the form in groups of
small letters.
-/

namespace ApiTree
namespace Uuid

/-- The sizes of the groups of digits. -/
def groups : List Nat := [8, 4, 4, 4, 12]

/-- Digits in groups of the given sizes with hyphens between them. -/
def grouped : List Nat → List Char → List (List Char)
  | [], _ => []
  | n :: ns, cs => cs.take n :: grouped ns (cs.drop n)

/-- A hexadecimal digit as a small letter. -/
def small (c : Char) : Char := if 'A' ≤ c ∧ c ≤ 'F' then Char.ofNat (c.toNat + 32) else c

/-- The written form of 32 digits. -/
def text (digits : List Char) : String :=
  "-".intercalate ((grouped groups (digits.map small)).map String.ofList)

/-- The digits of a text in groups with hyphens. -/
def ungrouped? (cs : List Char) : Option (List Char) :=
  let parts := ((String.ofList cs).splitOn "-").map String.toList
  if parts.map List.length == groups then some parts.flatten else none

/-- The digits of a text of one of the forms, with whatever stands in their
places. -/
def digits? (cs : List Char) : Option (List Char) :=
  match cs.length with
  | 32 => some cs
  | 36 => ungrouped? cs
  | 38 => if cs.head? == some '\x7b' && cs.getLast? == some '\x7d' then
      ungrouped? (cs.drop 1).dropLast
    else none
  | 45 => if cs.take 9 == "urn:uuid:".toList then ungrouped? (cs.drop 9) else none
  | _ => none

/-- The identifier that a text writes. -/
def read? (s : String) : Option String :=
  (digits? s.toList).bind fun ds =>
    if ds.all fun c => (Numeral.hexValue? c).isSome then some (text ds) else none

end Uuid
end ApiTree
