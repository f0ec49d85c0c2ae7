/-!
# ApiTree.Text.Base64

Bytes written with 64 signs, of which four stand for three bytes.  Other
characters between the signs do not count.
-/

namespace ApiTree
namespace Base64

/-- The value of a sign. -/
def signValue? (c : Char) : Option Nat :=
  if 'A' ≤ c ∧ c ≤ 'Z' then some (c.toNat - 65)
  else if 'a' ≤ c ∧ c ≤ 'z' then some (c.toNat - 71)
  else if '0' ≤ c ∧ c ≤ '9' then some (c.toNat + 4)
  else if c = '+' then some 62
  else if c = '/' then some 63
  else none

/-- The bytes that the signs from here on write; `held` are the values of the signs
that wait for others to make four, the last one first, and `pads` counts the equals
signs just before.  With two or three signs, equals signs up to four end the text. -/
def decodeFrom (held : List Nat) (pads : Nat) : List Char → Option (List UInt8)
  | [] => if held.isEmpty then some [] else none
  | c :: cs =>
    if c = '=' then
      if 2 ≤ held.length ∧ 4 ≤ held.length + pads + 1 then some (ended held)
      else decodeFrom held (pads + 1) cs
    else
      match signValue? c, held with
      | none, held => decodeFrom held pads cs
      | some d, [z, y, x] =>
        let n := ((x * 64 + y) * 64 + z) * 64 + d
        (decodeFrom [] 0 cs).map fun bytes =>
          (n / 65536).toUInt8 :: (n / 256).toUInt8 :: n.toUInt8 :: bytes
      | some d, held => decodeFrom (d :: held) 0 cs
where
  /-- The bytes of two or three signs. -/
  ended : List Nat → List UInt8
    | [y, x] => [((x * 64 + y) / 16).toUInt8]
    | [z, y, x] =>
      let n := (x * 64 + y) * 64 + z
      [(n / 1024).toUInt8, (n / 4).toUInt8]
    | _ => []

/-- The bytes that a text of ASCII characters writes. -/
def decode? (cs : List Char) : Option (List UInt8) :=
  if cs.all fun c => c.toNat < 0x80 then decodeFrom [] 0 cs else none

end Base64
end ApiTree
