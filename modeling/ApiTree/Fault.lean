import ApiTree.Json.Basic
import ApiTree.Number.Mixed
import ApiTree.Pattern.Reader
import ApiTree.Yaml.Misread

/-!
# ApiTree.Fault

Everything that can stop an operation, by cause.  `Fault.kind` is the word that
reports put before a fault, `Fault.message` its wording.
-/

namespace ApiTree

/-- Why two declarations cannot be reconciled, or a selection not be made. -/
inductive ConflictCause where
  | claimedByBoth (owner claimant : String)
  | claimedBy (identities : List String)
  | parameterTwice (location name : String)
  | parameterOneSided (location name : String)
  | parameterSchemas (location name : String)
  | parameterRequired (location name : String)
  | bodyTwice
  | bodyOneSided
  | bodySchemas (contentType : String)
  | securitySettings
  | outOfOrder
  | notInTarget
  | notInDocument
deriving DecidableEq, Repr

/-- A conflict and what it is about: an operation or a component. -/
structure Conflict where
  identity : String
  cause : ConflictCause
deriving DecidableEq, Repr

/-- The wording of a cause. -/
def ConflictCause.detail : ConflictCause → String
  | .claimedByBoth a b => "component name claimed by both " ++ a ++ " and " ++ b
  | .claimedBy ids => "component name claimed by " ++ " and ".intercalate ids
  | .parameterTwice l n => l ++ " parameter `" ++ n ++ "` declared twice"
  | .parameterOneSided l n => l ++ " parameter `" ++ n ++ "` is declared on only one side"
  | .parameterSchemas l n => l ++ " parameter `" ++ n ++ "` declared with different schemas"
  | .parameterRequired l n =>
    l ++ " parameter `" ++ n ++ "` declared with different required flags"
  | .bodyTwice => "request body declared twice"
  | .bodyOneSided => "request body is declared on only one side"
  | .bodySchemas ct => "request body for " ++ ct ++ " declared with different schemas"
  | .securitySettings => "security scheme declared with different settings"
  | .outOfOrder => "pattern endpoint is out of order with respect to the target API"
  | .notInTarget => "pattern endpoint does not occur in the target API"
  | .notInDocument => "selected operation is not in the document"

/-- The wording of a conflict. -/
def Conflict.message (c : Conflict) : String := c.identity ++ ": " ++ c.cause.detail

/-- What is wrong with a piece of data: where, and the kind of mistake. -/
structure Issue where
  location : List String
  kind : String
deriving DecidableEq, Repr

/-- The issue one level further out. -/
def Issue.under (part : String) (i : Issue) : Issue := { i with location := part :: i.location }

/-- What stops an operation. -/
inductive Fault where
  | conflict (c : Conflict)
  /-- Something that is no node stands where a node is expected. -/
  | notATree (shown : String)
  | unknownQualifier (shown : String)
  | unsupportedMethod (name : String)
  | badOperands (operator left right : String)
  /-- A type without a schema. -/
  | underivable
  /-- A type with a constraint that it cannot have. -/
  | flawed (flaw : String)
  | noGenerator (typeName : String)
  | noEncoder (typeName : String)
  /-- A draw from a range that holds no number. -/
  | emptyRange (low high : Number)
  /-- A choice from an empty list. -/
  | nothingToChoose
  | tooFewSamples
  /-- A generator or encoder of the caller gave up. -/
  | collaborator (message : String)
  | invalid (issues : List Issue)
  | missingKey (key : String)
  | missingArguments (of : String) (names : List String)
  | unexpectedArgument (of name : String)
  | argumentTwice (of name : String)
  | noMember (kind member : String)
  /-- A value that no member of an enumeration stands for. -/
  | notAnOption (shown name : String)
  /-- A text that writes no integer. -/
  | notAnInteger (shown : String)
  /-- A value of a kind that integers are not made of. -/
  | noInteger (kind : String)
  /-- "Not a number" in the place of an integer. -/
  | integerOfNan
  | integerOfInfinity
  /-- A value of this kind holds nothing to look for a member in. -/
  | notAContainer (kind : String)
  | textIndex
  | listIndex
  | notIterable (kind : String)
  | notCallable (kind : String)
  | incomparable (operator left right : String)
  | noRemainder (left right : String)
  | tooLarge
  /-- A constraint on a value of a kind that cannot have it. -/
  | cannotApply (constraint shown : String)
  /-- A pattern on a value that is no text, where a shape of the given kind is. -/
  | cannotMatch (shown kind : String)
  /-- A quotient of decimal numbers with too many digits. -/
  | longQuotient
  | unhashable (kind : String)
  | notAPattern
  | badPattern (error : Pattern.Misread) (written : String)
  /-- References lead from schema to schema without end. -/
  | endless
  | badSetting (field : String)
  /-- A setting whose variable has no name. -/
  | namelessSetting (field : String)
  | notAMapping (file : String)
  | badYaml (error : Yaml.Misread)
  /-- A setting under a key that is no text. -/
  | keyIsNoText
  | unknownLevel (name : String)
  | isADirectory (path : String)
  /-- A file in the place of a directory. -/
  | isAFile (path : String)
  | belowAFile (path : String)
  | nameTooLong (path : String)
  /-- A name with a character that ends names. -/
  | nullInName
  /-- The name of a module that starts from another one. -/
  | relativeModule (name : String)
  /-- A description of types or trees that cannot be read. -/
  | unreadable (what : String)
deriving Repr

namespace Fault

/-- The word for the kind of a fault. -/
def kind : Fault → String
  | .conflict _ => "StructuralConflict"
  | .notATree _ | .unknownQualifier _ | .badOperands .. | .missingArguments ..
  | .unexpectedArgument .. | .argumentTwice .. | .notAContainer _ | .textIndex | .listIndex
  | .notIterable _ | .notCallable _ | .incomparable .. | .noRemainder .. | .unhashable _
  | .notAPattern | .keyIsNoText | .relativeModule _ | .noInteger _ | .cannotApply ..
  | .cannotMatch .. => "TypeError"
  | .longQuotient => "InvalidOperation"
  | .unsupportedMethod _ | .notAnOption .. | .emptyRange .. | .tooFewSamples | .notAMapping _
  | .unreadable _ | .nullInName | .notAnInteger _ | .integerOfNan => "ValueError"
  | .nothingToChoose => "IndexError"
  | .underivable => "SchemaUnavailable"
  | .flawed _ => "SchemaError"
  | .noGenerator _ => "GeneratorUnavailable"
  | .noEncoder _ => "EncoderUnavailable"
  | .collaborator _ => "RuntimeError"
  | .invalid _ => "ValidationError"
  | .missingKey _ | .unknownLevel _ => "KeyError"
  | .noMember .. => "AttributeError"
  | .tooLarge | .integerOfInfinity => "OverflowError"
  | .badPattern e _ =>
    match e.mistake with
    | .tooManyTimes => "OverflowError"
    | .twoAlphabets => "ValueError"
    | _ => "error"
  | .endless => "RecursionError"
  | .badSetting _ | .namelessSetting _ => "SettingsError"
  | .badYaml e =>
    match e with
    | .codePoint | .integer .. | .longInteger _ | .fraction _ | .noSuchMoment _ => "ValueError"
    | .truth _ => "KeyError"
    | .emptyNumber => "IndexError"
    | .moment => "AttributeError"
    | _ => "YAMLError"
  | .isADirectory _ => "IsADirectoryError"
  | .isAFile _ => "FileExistsError"
  | .belowAFile _ => "NotADirectoryError"
  | .nameTooLong _ => "OSError"

/-- A count of names and the names, as in `'a', 'b', and 'c'`. -/
def namesText (names : List String) : String :=
  match names.map quoted with
  | [] => ""
  | [a] => a
  | [a, b] => a ++ " and " ++ b
  | all => ", ".intercalate all.dropLast ++ ", and " ++ all.getLastD ""

/-- The wording of a fault. -/
def message : Fault → String
  | .conflict c => c.message
  | .notATree shown => "not a route tree node: " ++ shown
  | .unknownQualifier shown => "unknown qualifier: " ++ shown
  | .unsupportedMethod name => "unsupported HTTP method: " ++ name
  | .badOperands op a b =>
    "unsupported operand type(s) for " ++ op ++ ": '" ++ a ++ "' and '" ++ b ++ "'"
  | .underivable => "no schema available"
  | .flawed flaw => flaw
  | .noGenerator name => "no sample generator available for type " ++ name
  | .noEncoder name => "no wire encoder available for type " ++ name
  | .emptyRange low high =>
    let stop := (high.add? (.int 1)).getD high
    let width := (stop.sub? low).getD stop
    "empty range for randrange() (" ++
      ", ".intercalate ([low, stop, width].map Number.text) ++ ")"
  | .nothingToChoose => "Cannot choose from an empty sequence"
  | .tooFewSamples => "samples_per_type must be at least 1"
  | .collaborator message => message
  | .invalid _ => ""
  | .missingKey key => quoted key
  | .missingArguments of names =>
    of ++ ".__init__() missing " ++ toString names.length ++ " required positional argument" ++
      (if names.length = 1 then "" else "s") ++ ": " ++ namesText names
  | .unexpectedArgument of name =>
    of ++ ".__init__() got an unexpected keyword argument " ++ quoted name
  | .argumentTwice of name => of ++ "() got multiple values for argument " ++ quoted name
  | .noMember kind member => "'" ++ kind ++ "' object has no attribute '" ++ member ++ "'"
  | .notAnOption shown name => shown ++ " is not a valid " ++ name
  | .notAnInteger shown => "invalid literal for int() with base 10: " ++ shown
  | .noInteger kind =>
    "int() argument must be a string, a bytes-like object or a real number, not '" ++ kind ++ "'"
  | .integerOfNan => "cannot convert float NaN to integer"
  | .integerOfInfinity => "cannot convert float infinity to integer"
  | .notAContainer kind => "argument of type '" ++ kind ++ "' is not iterable"
  | .textIndex => "string indices must be integers, not 'str'"
  | .listIndex => "list indices must be integers or slices, not str"
  | .notIterable kind => "'" ++ kind ++ "' object is not iterable"
  | .notCallable kind => "'" ++ kind ++ "' object is not callable"
  | .incomparable op a b =>
    "'" ++ op ++ "' not supported between instances of '" ++ a ++ "' and '" ++ b ++ "'"
  | .noRemainder a b => "unsupported operand type(s) for %: '" ++ a ++ "' and '" ++ b ++ "'"
  | .tooLarge => "int too large to convert to float"
  | .cannotApply constraint shown =>
    "Unable to apply constraint '" ++ constraint ++ "' to supplied value " ++ shown
  | .cannotMatch shown kind =>
    "Unable to apply constraint 'pattern' to supplied value " ++ shown ++
      " for schema of type '" ++ kind ++ "'"
  | .longQuotient => "[<class 'decimal.DivisionImpossible'>]"
  | .unhashable kind => "unhashable type: '" ++ kind ++ "'"
  | .notAPattern => "first argument must be string or compiled pattern"
  | .badPattern e written => e.message written
  | .endless => "maximum recursion depth exceeded"
  | .badSetting field =>
    "error parsing value for field \"" ++ field ++ "\" from source \"EnvSettingsSource\""
  | .namelessSetting field =>
    "error getting value for field \"" ++ field ++ "\" from source \"EnvSettingsSource\""
  | .notAMapping file => file ++ ": expected a mapping at the top level"
  | .badYaml e => e.message
  | .keyIsNoText => "keywords must be strings"
  | .unknownLevel name => quoted ("level " ++ name)
  | .isADirectory path => "[Errno 21] Is a directory: " ++ quoted path
  | .isAFile path => "[Errno 17] File exists: " ++ quoted path
  | .belowAFile path => "[Errno 20] Not a directory: " ++ quoted path
  | .nameTooLong path => "[Errno 36] File name too long: " ++ quoted path
  | .nullInName => "embedded null byte"
  | .relativeModule name =>
    "the 'package' argument is required to perform a relative import for " ++ quoted name
  | .unreadable what => "cannot read " ++ what

end Fault
end ApiTree
