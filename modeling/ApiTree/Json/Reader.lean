import ApiTree.Json.Basic

/-!
# ApiTree.Json.Reader

Reading JSON text.  A number without fraction and exponent is an integer, any
other number is the nearest double.  Of two members with one name the later
value counts, at the earlier position.  The names `NaN`, `Infinity` and
`-Infinity` are read as doubles.

The reader works on a list of characters; its fuel is the number of characters
left, which every step uses up.
-/

namespace ApiTree
namespace Json

/-- Drops blanks. -/
def skipBlanks : List Char → List Char
  | c :: cs => if c = ' ' || c = '\n' || c = '\r' || c = '\t' then skipBlanks cs else c :: cs
  | [] => []

/-- The value of a hexadecimal digit. -/
def hexValue? (c : Char) : Option Nat :=
  if '0' ≤ c ∧ c ≤ '9' then some (c.toNat - 48)
  else if 'a' ≤ c ∧ c ≤ 'f' then some (c.toNat - 87)
  else if 'A' ≤ c ∧ c ≤ 'F' then some (c.toNat - 55)
  else none

/-- Reads four hexadecimal digits. -/
def readHex4 : List Char → Option (Nat × List Char)
  | a :: b :: c :: d :: rest => do
    let a ← hexValue? a
    let b ← hexValue? b
    let c ← hexValue? c
    let d ← hexValue? d
    return (((a * 16 + b) * 16 + c) * 16 + d, rest)
  | _ => none

/-- Reads the rest of a text after its opening quote; `acc` holds the
characters read so far, last first. -/
def readText : Nat → List Char → List Char → Option (String × List Char)
  | 0, _, _ => none
  | _ + 1, _, [] => none
  | _ + 1, acc, '"' :: rest => some (String.ofList acc.reverse, rest)
  | fuel + 1, acc, '\\' :: e :: rest =>
    match e with
    | '"' => readText fuel ('"' :: acc) rest
    | '\\' => readText fuel ('\\' :: acc) rest
    | '/' => readText fuel ('/' :: acc) rest
    | 'b' => readText fuel ('\x08' :: acc) rest
    | 'f' => readText fuel ('\x0c' :: acc) rest
    | 'n' => readText fuel ('\n' :: acc) rest
    | 'r' => readText fuel ('\r' :: acc) rest
    | 't' => readText fuel ('\t' :: acc) rest
    | 'u' =>
      match readHex4 rest with
      | none => none
      | some (n, rest) =>
        if 0xd800 ≤ n ∧ n < 0xdc00 then
          match rest with
          | '\\' :: 'u' :: more =>
            match readHex4 more with
            | some (m, more) =>
              if 0xdc00 ≤ m ∧ m < 0xe000 then
                readText fuel (Char.ofNat (0x10000 + (n - 0xd800) * 0x400 + (m - 0xdc00)) :: acc)
                  more
              else readText fuel (Half.charOf n :: acc) rest
            | none => none
          | _ => readText fuel (Half.charOf n :: acc) rest
        else readText fuel (Half.charOf n :: acc) rest
    | _ => none
  | fuel + 1, acc, c :: rest =>
    if c.toNat < 0x20 then none else readText fuel (c :: acc) rest

/-- The digits at the front of a text, and what follows them. -/
def spanDigits (cs : List Char) : List Char × List Char :=
  (cs.takeWhile Char.isDigit, cs.dropWhile Char.isDigit)

/-- The number that a list of decimal digits writes. -/
def digitsValue (cs : List Char) : Nat :=
  cs.foldl (fun n c => n * 10 + (c.toNat - 48)) 0

/-- Reads the exponent part of a number: its value, or zero if there is none. -/
def readExponent (cs : List Char) : Option (Option Int × List Char) :=
  match cs with
  | e :: rest =>
    if e = 'e' ∨ e = 'E' then
      let (negative, rest) := match rest with
        | '-' :: r => (true, r)
        | '+' :: r => (false, r)
        | r => (false, r)
      let (ds, rest) := spanDigits rest
      if ds.isEmpty then none
      else
        let n : Int := digitsValue ds
        some (some (if negative then -n else n), rest)
    else some (none, cs)
  | [] => some (none, cs)

/-- Reads a number after its sign. -/
def readNumber (negative : Bool) (cs : List Char) : Option (Json × List Char) :=
  let (whole, rest) := spanDigits cs
  if whole.isEmpty || (whole.length > 1 && whole.head? == some '0') then none
  else
    let fraction? : Option (Option (List Char) × List Char) := match rest with
      | '.' :: r =>
        let (ds, r) := spanDigits r
        if ds.isEmpty then none else some (some ds, r)
      | r => some (none, r)
    match fraction? with
    | none => none
    | some (fraction, rest) =>
      match readExponent rest with
      | none => none
      | some (exponent, rest) =>
        match fraction, exponent with
        | none, none =>
          let n : Int := digitsValue whole
          some (.int (if negative then -n else n), rest)
        | _, _ =>
          let fraction := fraction.getD []
          let power := exponent.getD 0 - (fraction.length : Int)
          some (.float (.ofDecimal negative (digitsValue (whole ++ fraction)) power), rest)

/-- Drops a word from the front of a text. -/
def dropWord? (word : List Char) (cs : List Char) : Option (List Char) :=
  if word.isPrefixOf cs then some (cs.drop word.length) else none

/-- Reads a word with a fixed value. -/
def readWord (cs : List Char) : Option (Json × List Char) :=
  let words : List (String × Json) :=
    [("null", .null), ("true", .bool true), ("false", .bool false), ("NaN", .float .nan),
      ("Infinity", .float (.infinite false)), ("-Infinity", .float (.infinite true))]
  words.findSome? fun (word, value) => (dropWord? word.toList cs).map fun rest => (value, rest)

mutual

/-- Reads a value after blanks. -/
def readValue : Nat → List Char → Option (Json × List Char)
  | 0, _ => none
  | fuel + 1, cs =>
    match skipBlanks cs with
    | '"' :: rest => (readText (rest.length + 1) [] rest).map fun (s, rest) => (.str s, rest)
    | '[' :: rest =>
      match skipBlanks rest with
      | ']' :: rest => some (.arr [], rest)
      | rest => (readItems fuel [] rest).map fun (xs, rest) => (.arr xs, rest)
    | '{' :: rest =>
      match skipBlanks rest with
      | '}' :: rest => some (.obj [], rest)
      | rest => (readMembers fuel [] rest).map fun (ms, rest) => (.obj (Table.ofList ms), rest)
    | '-' :: rest =>
      match readNumber true rest with
      | some r => some r
      | none => readWord ('-' :: rest)
    | cs =>
      match readNumber false cs with
      | some r => some r
      | none => readWord cs

/-- Reads the items of an array up to its closing bracket. -/
def readItems : Nat → List Json → List Char → Option (List Json × List Char)
  | 0, _, _ => none
  | fuel + 1, acc, cs =>
    match readValue fuel cs with
    | none => none
    | some (x, rest) =>
      match skipBlanks rest with
      | ',' :: rest => readItems fuel (x :: acc) rest
      | ']' :: rest => some ((x :: acc).reverse, rest)
      | _ => none

/-- Reads the members of an object up to its closing brace. -/
def readMembers : Nat → List (String × Json) → List Char →
    Option (List (String × Json) × List Char)
  | 0, _, _ => none
  | fuel + 1, acc, cs =>
    match skipBlanks cs with
    | '"' :: rest =>
      match readText (rest.length + 1) [] rest with
      | none => none
      | some (k, rest) =>
        match skipBlanks rest with
        | ':' :: rest =>
          match readValue fuel rest with
          | none => none
          | some (v, rest) =>
            match skipBlanks rest with
            | ',' :: rest => readMembers fuel ((k, v) :: acc) rest
            | '}' :: rest => some (((k, v) :: acc).reverse, rest)
            | _ => none
        | _ => none
    | _ => none

end

/-- Reads a text that holds one value and blanks. -/
def ofText? (s : String) : Option Json :=
  let cs := s.toList
  match readValue (2 * cs.length + 2) cs with
  | some (v, rest) => if (skipBlanks rest).isEmpty then some v else none
  | none => none

end Json
end ApiTree
