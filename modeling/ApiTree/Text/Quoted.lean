import ApiTree.Text.CharClass
import ApiTree.Text.Half

/-!
# ApiTree.Text.Quoted

Quoted text as messages show it.  Single quotes, unless the text holds a
single quote and no double quote.  The quote in use and the backslash are
escaped; line feed, carriage return and tab have short escapes; every other
unprintable character is written by its number.
-/

namespace ApiTree
namespace Quoted

/-- The lower case hexadecimal digit of a number below sixteen. -/
def hexDigit (n : Nat) : Char :=
  if n < 10 then Char.ofNat (48 + n) else Char.ofNat (87 + n)

/-- The last `width` hexadecimal digits of a number. -/
def hex (width n : Nat) : List Char :=
  match width with
  | 0 => []
  | w + 1 => hex w (n / 16) ++ [hexDigit (n % 16)]

/-- The quote around a text. -/
def quoteOf (cs : List Char) : Char :=
  if cs.contains '\'' && !cs.contains '"' then '"' else '\''

/-- The written form of one character between the given quotes. -/
def escape (quote c : Char) : List Char :=
  if c = quote || c = '\\' then ['\\', c]
  else if c = '\n' then ['\\', 'n']
  else if c = '\r' then ['\\', 'r']
  else if c = '\t' then ['\\', 't']
  else if CharClass.isPrintable c then [c]
  else if c.toNat < 0x100 then '\\' :: 'x' :: hex 2 c.toNat
  else if c.toNat < 0x10000 then '\\' :: 'u' :: hex 4 c.toNat
  else if let some n := Half.unit? c then '\\' :: 'u' :: hex 4 n
  else '\\' :: 'U' :: hex 8 c.toNat

/-- The quoted form of a list of characters. -/
def encode (cs : List Char) : List Char :=
  let q := quoteOf cs
  q :: cs.flatMap (escape q) ++ [q]

end Quoted

/-- The quoted form of a text. -/
def quoted (s : String) : String := String.ofList (Quoted.encode s.toList)

/-- The quoted form of the bytes of a text: all but the printable characters of
ASCII are written by their numbers. -/
def quotedBytes (s : String) : String :=
  let bytes := s.toUTF8.toList.map fun b => Char.ofNat b.toNat
  let q := Quoted.quoteOf bytes
  let escape (c : Char) : List Char :=
    if c.toNat < 0x7f then Quoted.escape q c else '\\' :: 'x' :: Quoted.hex 2 c.toNat
  String.ofList ('b' :: q :: bytes.flatMap escape ++ [q])

end ApiTree
