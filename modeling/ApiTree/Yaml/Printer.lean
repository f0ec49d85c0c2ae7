import ApiTree.Json.Printer
import ApiTree.Yaml.Scalar

/-!
# ApiTree.Yaml.Printer

Writing JSON values as YAML documents: one line per member and per item, with
two blanks per level.  A text is written plain only where it cannot be taken for
anything else, and in double quotes otherwise.
-/

namespace ApiTree
namespace Yaml

/-- Whether a text can be written without quotes. -/
def isPlainText (s : String) : Bool :=
  let safe (c : Char) : Bool := c.isAlphanum || "_/.".toList.contains c
  s.toList.all safe && s.toList.any Char.isAlpha &&
    plainTag s == .text

/-- The written form of a text. -/
def textForm (s : String) : String := if isPlainText s then s else Json.textLiteral false s

/-- The written form of a double. -/
def doubleForm : Double → String
  | .nan => ".nan"
  | .infinite negative => if negative then "-.inf" else ".inf"
  | x =>
    let text := x.text
    if text.toList.contains '.' then text else text.replace "e" ".0e"

/-- The written form of a value that fits in a line, if it does. -/
def inLine? : Json → Option String
  | .arr [] => some "[]"
  | .obj [] => some "\x7b\x7d"
  | .arr _ | .obj _ => none
  | .str s => some (textForm s)
  | .float x => some (doubleForm x)
  | j => some (Json.line j)

/-- A line at a level. -/
def atLevel (level : Nat) (text : String) : String :=
  String.ofList (List.replicate (2 * level) ' ') ++ text

mutual

/-- The lines of a value at a level. -/
def linesAt (level : Nat) : Json → List String
  | .arr xs => itemLines level xs
  | .obj ms => memberLines level ms
  | j => [atLevel level ((inLine? j).getD "")]

/-- The lines of items. -/
def itemLines (level : Nat) : List Json → List String
  | [] => []
  | x :: xs =>
    (match inLine? x with
      | some text => [atLevel level ("- " ++ text)]
      | none => atLevel level "-" :: linesAt (level + 1) x) ++ itemLines level xs

/-- The lines of members. -/
def memberLines (level : Nat) : List (String × Json) → List String
  | [] => []
  | (k, v) :: ms =>
    (match inLine? v with
      | some text => [atLevel level (textForm k ++ ": " ++ text)]
      | none => atLevel level (textForm k ++ ":") :: linesAt (level + 1) v) ++
      memberLines level ms

end

/-- The document of a value. -/
def ofJson (j : Json) : String :=
  "\n".intercalate (match inLine? j with
    | some text => [text]
    | none => linesAt 0 j) ++ "\n"

end Yaml
end ApiTree
