import ApiTree.Text.Quoted
import ApiTree.Time.Basic

/-!
# ApiTree.Yaml.Misread

What can be wrong with the text of a YAML document, with the first line of its
wording.
-/

namespace ApiTree
namespace Yaml

/-- Why a text is no YAML document, or a document has no value. -/
inductive Misread where
  /-- A character that documents do not hold. -/
  | character (code : Nat)
  | nextToken
  | simpleKey
  | entryHere
  | keyHere
  | valueHere
  /-- Something cut short or followed by the wrong character. -/
  | scanning (what : String)
  | parsing (what : String)
  | documentStart (found : String)
  | twoVersions
  | wrongVersion
  | handleTwice (handle : String)
  | unknownAlias (name : String)
  | anchorTwice (name : String)
  | severalDocuments
  | constructing (what : String)
  | notOfKind (kind found : String)
  | noMeaning (tag : String)
  /-- A code beyond the last character. -/
  | codePoint
  | integer (base : Nat) (text : String)
  | longInteger (digits : Nat)
  | fraction (text : String)
  | truth (text : String)
  | emptyNumber
  | moment
  /-- No bytes: whether all characters are of ASCII, and the number of signs. -/
  | notBytes (ascii : Bool) (signs : Nat)
  | noSuchMoment (m : Moment.Mistake)
deriving DecidableEq, Repr

/-- The first line of the wording of a mistake. -/
def Misread.message : Misread → String
  | .character code =>
    let digits := (Nat.toDigits 16 code)
    "unacceptable character #x" ++
      String.ofList (List.replicate (4 - digits.length) '0' ++ digits) ++
      ": special characters are not allowed"
  | .nextToken => "while scanning for the next token"
  | .simpleKey => "while scanning a simple key"
  | .entryHere => "sequence entries are not allowed here"
  | .keyHere => "mapping keys are not allowed here"
  | .valueHere => "mapping values are not allowed here"
  | .scanning what => "while scanning " ++ what
  | .parsing what => "while parsing " ++ what
  | .documentStart found => "expected '<document start>', but found " ++ quoted found
  | .twoVersions => "found duplicate YAML directive"
  | .wrongVersion => "found incompatible YAML document (version 1.* is required)"
  | .handleTwice handle => "duplicate tag handle " ++ quoted handle
  | .unknownAlias name => "found undefined alias " ++ quoted name
  | .anchorTwice name => "found duplicate anchor " ++ quoted name ++ "; first occurrence"
  | .severalDocuments => "expected a single document in the stream"
  | .constructing what => "while constructing " ++ what
  | .notOfKind kind found => "expected a " ++ kind ++ " node, but found " ++ found
  | .noMeaning tag => "could not determine a constructor for the tag " ++ quoted tag
  | .codePoint => "chr() arg not in range(0x110000)"
  | .integer base text =>
    "invalid literal for int() with base " ++ toString base ++ ": " ++ quoted text
  | .longInteger digits =>
    "Exceeds the limit (4300 digits) for integer string conversion: value has " ++
      toString digits ++ " digits; use sys.set_int_max_str_digits() to increase the limit"
  | .fraction text => "could not convert string to float: " ++ quoted text
  | .truth text => quoted text
  | .emptyNumber => "string index out of range"
  | .notBytes false _ => "failed to convert base64 data into ascii"
  | .notBytes true n =>
    "failed to decode base64 data: " ++
      if n % 4 = 1 then
        "Invalid base64-encoded string: number of data characters (" ++ toString n ++
          ") cannot be 1 more than a multiple of 4"
      else "Incorrect padding"
  | .moment => "'NoneType' object has no attribute 'groupdict'"
  | .noSuchMoment m => m.text

end Yaml
end ApiTree
