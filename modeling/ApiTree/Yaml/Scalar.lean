import ApiTree.Json.Basic
import ApiTree.Number.Fraction
import ApiTree.Pattern.Reader
import ApiTree.Text.Base64
import ApiTree.Yaml.Misread

/-!
# ApiTree.Yaml.Scalar

Tags of nodes and what scalars stand for.  The tag of a plain scalar follows
from its form: the text of a number, of a truth value or of a point in time is
no text.
-/

namespace ApiTree
namespace Yaml

/-- What a node is. -/
inductive Tag where
  | null
  | bool
  | int
  | float
  | moment
  | bytes
  | text
  | merge
  | value
  | list
  | map
  | set
  | pairs
  | ordered
  | other (written : String)
deriving DecidableEq, Repr

namespace Tag

/-- The tags with a meaning and their names. -/
def named : List (String × Tag) :=
  [("null", .null), ("bool", .bool), ("int", .int), ("float", .float), ("timestamp", .moment),
    ("binary", .bytes), ("str", .text), ("merge", .merge), ("value", .value), ("seq", .list),
    ("map", .map), ("set", .set), ("pairs", .pairs), ("omap", .ordered)]

/-- What the written form of a tag with a meaning begins with. -/
def space : String := "tag:yaml.org,2002:"

/-- A tag by its written form. -/
def ofText (written : String) : Tag :=
  ((named.find? fun (n, _) => space ++ n == written).map (·.2)).getD (.other written)

/-- The written form of a tag. -/
def written : Tag → String
  | .other w => w
  | t => space ++ ((named.find? (·.2 == t)).map (·.1)).getD ""

end Tag

/-! ## Forms of plain scalars -/

/-- Whether a text has the form of a pattern. -/
def hasForm (pattern text : String) : Bool :=
  match Pattern.ofText ("^(?:" ++ pattern ++ ")$") with
  | .ok p => p.occursIn text
  | .error _ => false

/-- The forms of whole numbers: binary, octal, decimal, hexadecimal, and parts of
sixty. -/
def wholeForm : String :=
  "[-+]?0b[01_]+|[-+]?0[0-7_]+|[-+]?(?:0|[1-9][0-9_]*)|[-+]?0x[0-9a-fA-F_]+" ++
    "|[-+]?[1-9][0-9_]*(?::[0-5]?[0-9])+"

/-- The forms of fractions, and of parts of sixty with a fraction. -/
def fractionForm : String :=
  "[-+]?(?:[0-9][0-9_]*)\\.[0-9_]*(?:[eE][-+][0-9]+)?|\\.[0-9][0-9_]*(?:[eE][-+][0-9]+)?" ++
    "|[-+]?[0-9][0-9_]*(?::[0-5]?[0-9])+\\.[0-9_]*|[-+]?\\.(?:inf|Inf|INF)|\\.(?:nan|NaN|NAN)"

/-- The forms of dates, and of dates with a time. -/
def momentForm : String :=
  "[0-9][0-9][0-9][0-9]-[0-9][0-9]-[0-9][0-9]" ++
    "|[0-9][0-9][0-9][0-9]-[0-9][0-9]?-[0-9][0-9]?(?:[Tt]|[ \t]+)[0-9][0-9]?:[0-9][0-9]" ++
    ":[0-9][0-9](?:\\.[0-9]*)?(?:[ \t]*(?:Z|[-+][0-9][0-9]?(?::[0-9][0-9])?))?"

/-- The words for truth. -/
def trueWords : List String := ["yes", "true", "on"]

/-- The words for falsehood. -/
def falseWords : List String := ["no", "false", "off"]

/-- A word in small letters, with a capital, and in capitals. -/
def spellings (w : String) : List String := [w, w.capitalize, w.map Char.toUpper]

/-- The tag of a plain scalar. -/
def plainTag (text : String) : Tag :=
  if ["", "~", "null", "Null", "NULL"].contains text then .null
  else if ((trueWords ++ falseWords).flatMap spellings).contains text then .bool
  else if text == "<<" then .merge
  else if text == "=" then .value
  else if hasForm fractionForm text then .float
  else if hasForm wholeForm text then .int
  else if hasForm momentForm text then .moment
  else .text

/-! ## Values of scalars -/

/-- A scalar's value: a JSON value, a point in time, or bytes with the text that they
encode, if they encode one. -/
inductive Scalar where
  | json (j : Json)
  | moment (text : String)
  | bytes (text : Option String)
deriving Repr

/-- The number that a text writes in a base. -/
def inBase (base : Nat) (cs : List Char) : Except Misread Nat :=
  let good (c : Char) : Bool := (Numeral.hexValue? c).any (· < base)
  if cs.isEmpty || !cs.all good then .error (.integer base (String.ofList cs))
  else if base = 10 ∧ Numeral.mostDigits < cs.length then .error (.longInteger cs.length)
  else .ok (Numeral.ofDigits base cs)

/-- The whole number that a text writes. -/
def wholeOf (text : String) : Except Misread Int := do
  let (negative, cs) := Numeral.signed (text.toList.filter (· != '_'))
  let n ← match cs with
    | [] => throw .emptyNumber
    | ['0'] => pure 0
    | '0' :: 'b' :: ds => inBase 2 ds
    | '0' :: 'x' :: ds => inBase 16 ds
    | '0' :: ds => inBase 8 ('0' :: ds)
    | cs => ((String.ofList cs).splitOn ":").foldlM (fun n part => do
        return n * 60 + (← inBase 10 part.toList)) 0
  return Numeral.withSign negative n

/-- The number that a text writes in one of the general forms. -/
def generalOf (cs : List Char) : Except Misread Double :=
  (Numeral.fraction? cs).elim (.error (.fraction (String.ofList cs))) .ok

/-- The fraction that a text writes.  Parts of sixty are added up from the
last. -/
def fractionOf (text : String) : Except Misread Double := do
  let (negative, cs) := Numeral.signed
    (Case.lower (String.ofList (text.toList.filter (· != '_')))).toList
  let x ← if cs == ".inf".toList then pure (.infinite false)
    else if cs == ".nan".toList then pure .nan
    else if cs.contains ':' then do
      let parts ← ((String.ofList cs).splitOn ":").mapM fun part => generalOf part.toList
      pure ((parts.reverse.foldl (fun (sum, base) part =>
        (sum.add (part.mul (.ofInt base)), base * 60)) (Double.zero false, (1 : Int))).1)
    else if text.isEmpty then throw .emptyNumber
    else generalOf cs
  return if negative then x.neg else x

/-- The digits at the front of a text, at most `most` of them, and what follows
them. -/
def leadingDigits (most : Nat) (cs : List Char) : Nat × List Char :=
  let ds := Numeral.takeUpTo most Char.isDigit cs
  (Numeral.ofDigits 10 ds, cs.drop ds.length)

/-- The zone at the end of a point in time, in seconds. -/
def zoneOf (cs : List Char) : Option Int :=
  match cs.dropWhile fun c => c == ' ' || c == '\t' with
  | 'Z' :: _ => some 0
  | c :: rest =>
    let (hours, rest) := leadingDigits 2 rest
    let (minutes, _) := leadingDigits 2 (rest.drop 1)
    some (Numeral.withSign (c == '-') (hours * 3600 + minutes * 60))
  | [] => none

/-- What is wrong with a text that has the form of a point in time. -/
def momentMistake? (text : String) : Option Moment.Mistake :=
  let (year, cs) := leadingDigits 4 text.toList
  let (month, cs) := leadingDigits 2 (cs.drop 1)
  let (day, cs) := leadingDigits 2 (cs.drop 1)
  let date : Date := ⟨year, month, day⟩
  if cs.isEmpty then Moment.mistakeIn? date
  else
    let (hour, cs) := leadingDigits 2 (cs.dropWhile (!·.isDigit))
    let (minute, cs) := leadingDigits 2 (cs.drop 1)
    let (second, cs) := leadingDigits 2 (cs.drop 1)
    let cs := match cs with
      | '.' :: rest => rest.dropWhile Char.isDigit
      | cs => cs
    Moment.mistake? ⟨date, hour, minute, second, 0, zoneOf cs⟩

/-- The forms of points in time where a tag says that a text is one. -/
def taggedMomentForm : String :=
  "[0-9][0-9][0-9][0-9]-[0-9][0-9]?-[0-9][0-9]?(?:(?:[Tt]|[ \t]+)[0-9][0-9]?:[0-9][0-9]" ++
    ":[0-9][0-9](?:\\.[0-9]*)?(?:[ \t]*(?:Z|[-+][0-9][0-9]?(?::[0-9][0-9])?))?)?"

/-- The value of a scalar by its tag. -/
def scalarOf (tag : Tag) (text : String) : Except Misread Scalar :=
  match tag with
  | .null => .ok (.json .null)
  | .bool =>
    let word := Case.lower text
    if trueWords.contains word then .ok (.json (.bool true))
    else if falseWords.contains word then .ok (.json (.bool false))
    else .error (.truth word)
  | .int => return .json (.int (← wholeOf text))
  | .float => return .json (.float (← fractionOf text))
  | .moment =>
    if hasForm taggedMomentForm text then
      match momentMistake? text with
      | some m => .error (.noSuchMoment m)
      | none => .ok (.moment text)
    else .error .moment
  | .bytes =>
    match Base64.decode? text.toList with
    | some bytes => .ok (.bytes (String.fromUTF8? ⟨bytes.toArray⟩))
    | none => .error (.notBytes (text.toList.all fun c => c.toNat < 0x80)
        (text.toList.filter fun c => (Base64.signValue? c).isSome).length)
  | .text => .ok (.json (.str text))
  | .list | .pairs | .ordered => .error (.notOfKind "sequence" "scalar")
  | .map | .set => .error (.notOfKind "mapping" "scalar")
  | t => .error (.noMeaning t.written)

end Yaml
end ApiTree
