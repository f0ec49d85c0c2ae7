/-!
# ApiTree.Text.Half

Halves of characters.  In units of 16 bits a character may take two units, each of
which is no character.  Escapes can write such a half alone; it is kept as one of the
last private characters, which nothing else uses.
-/

namespace ApiTree
namespace Half

/-- The first unit that is half a character. -/
def firstUnit : Nat := 0xd800

/-- Whether a unit is half a character. -/
def isUnit (n : Nat) : Bool := firstUnit ≤ n && n < 0xe000

/-- The first of the characters that stand for halves. -/
def firstChar : Nat := 0x10f800

/-- The character of a code; a half has one that stands for it. -/
def charOf (n : Nat) : Char := Char.ofNat (if isUnit n then n - firstUnit + firstChar else n)

/-- The unit of the half that a character stands for. -/
def unit? (c : Char) : Option Nat :=
  if firstChar ≤ c.toNat then some (c.toNat - firstChar + firstUnit) else none

/-- Whether a text is not made of characters only. -/
def occursIn (s : String) : Bool := s.any fun c => (unit? c).isSome

end Half
end ApiTree
