import ApiTree.Json.Basic

/-!
# ApiTree.Json.Printer

Writing JSON text: on one line, with a blank after every comma and colon, or
indented.  Characters beyond ASCII are written as they are or by their UTF-16
units, as the format asks.
-/

namespace ApiTree
namespace Json

/-- The choices of a JSON text. -/
structure Format where
  /-- Whether characters beyond ASCII are written by number. -/
  ascii : Bool
  /-- Blanks per level; `none` for a text on one line. -/
  indent : Option Nat

/-- The written form of a UTF-16 unit. -/
def escapeUnit (n : Nat) : List Char := '\\' :: 'u' :: Quoted.hex 4 n

/-- The written form of a character. -/
def escapeChar (ascii : Bool) (c : Char) : List Char :=
  if c = '"' then ['\\', '"']
  else if c = '\\' then ['\\', '\\']
  else if c = '\n' then ['\\', 'n']
  else if c = '\r' then ['\\', 'r']
  else if c = '\t' then ['\\', 't']
  else if c = '\x08' then ['\\', 'b']
  else if c = '\x0c' then ['\\', 'f']
  else if c.toNat < 0x20 then escapeUnit c.toNat
  else if ascii && 0x7f ≤ c.toNat then
    if c.toNat < 0x10000 then escapeUnit c.toNat
    else if let some n := Half.unit? c then escapeUnit n
    else
      escapeUnit (0xd800 + (c.toNat - 0x10000) / 0x400) ++
        escapeUnit (0xdc00 + (c.toNat - 0x10000) % 0x400)
  else [c]

/-- The written form of a text. -/
def textLiteral (ascii : Bool) (s : String) : String :=
  String.ofList ('"' :: s.toList.flatMap (escapeChar ascii) ++ ['"'])

/-- The written form of a double. -/
def doubleLiteral : Double → String
  | .nan => "NaN"
  | .infinite s => if s then "-Infinity" else "Infinity"
  | x => x.text

/-- A line break and the blanks of a level, if the format has lines. -/
def lineBreak (f : Format) (level : Nat) : String :=
  match f.indent with
  | some n => "\n" ++ String.ofList (List.replicate (n * level) ' ')
  | none => ""

/-- What stands between two items. -/
def itemBreak (f : Format) (level : Nat) : String :=
  if f.indent.isSome then "," ++ lineBreak f level else ", "

mutual

/-- The written form of a value at a level of nesting. -/
def write (f : Format) (level : Nat) : Json → String
  | .null => "null"
  | .bool b => if b then "true" else "false"
  | .int n => toString n
  | .float x => doubleLiteral x
  | .str s => textLiteral f.ascii s
  | .arr [] => "[]"
  | .arr (x :: xs) =>
    "[" ++ lineBreak f (level + 1) ++
      (itemBreak f (level + 1)).intercalate (writeItems f (level + 1) (x :: xs)) ++
      lineBreak f level ++ "]"
  | .obj [] => "\x7b\x7d"
  | .obj (m :: ms) =>
    "\x7b" ++ lineBreak f (level + 1) ++
      (itemBreak f (level + 1)).intercalate (writeMembers f (level + 1) (m :: ms)) ++
      lineBreak f level ++ "\x7d"

/-- The written forms of items. -/
def writeItems (f : Format) (level : Nat) : List Json → List String
  | [] => []
  | x :: xs => write f level x :: writeItems f level xs

/-- The written forms of members. -/
def writeMembers (f : Format) (level : Nat) : List (String × Json) → List String
  | [] => []
  | (k, v) :: ms => (textLiteral f.ascii k ++ ": " ++ write f level v) :: writeMembers f level ms

end

/-- One line of ASCII. -/
def asciiLine (j : Json) : String := j.write ⟨true, none⟩ 0

/-- One line. -/
def line (j : Json) : String := j.write ⟨false, none⟩ 0

/-- Indented by two blanks per level. -/
def indented (j : Json) : String := j.write ⟨false, some 2⟩ 0

mutual

/-- The value with the members of every object sorted by name. -/
def sortMembers : Json → Json
  | .arr xs => .arr (sortMembersList xs)
  | .obj ms => .obj ((sortMembersEach ms).mergeSort fun a b => a.1 ≤ b.1)
  | j => j

/-- The items with the members of every object sorted by name. -/
def sortMembersList : List Json → List Json
  | [] => []
  | x :: xs => sortMembers x :: sortMembersList xs

/-- The members with the members of every object below sorted by name. -/
def sortMembersEach : List (String × Json) → List (String × Json)
  | [] => []
  | (k, v) :: ms => (k, sortMembers v) :: sortMembersEach ms

end

end Json
end ApiTree
