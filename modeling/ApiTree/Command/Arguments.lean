import ApiTree.Text.Likeness
import ApiTree.Text.Quoted
import ApiTree.Validation.Checked

/-!
# ApiTree.Command.Arguments

Reading the arguments of a command.  An argument is a switch with a value or
stands by its position; a switch that is given again counts anew.  The values are
checked in the order in which they were given, then what is missing in the order
of declaration.  Every command has a switch without a value that asks for its
help, and then no value is checked.
-/

namespace ApiTree.Command

/-- What the value of a parameter has to be. -/
inductive Kind where
  | text
  | oneOf (options : List String)
  /-- The name of a file. -/
  | path
  /-- The name of a file that exists. -/
  | existing
  | integer
  | atLeast (least : Int)
deriving DecidableEq, Repr

/-- A parameter of a command.  One without switches stands by its position. -/
structure Parameter where
  name : String
  switches : List String := []
  kind : Kind := .text
  required : Bool := false
  /-- What help tells of it. -/
  about : String := ""
deriving DecidableEq, Repr

/-- How a command is misused. -/
inductive Misuse where
  /-- No arguments at all. -/
  | nothing
  | noCommand
  | unknownCommand (name : String) (alike : List String)
  | unknownSwitch (name : String) (alike : List String)
  | noValue (switch : String)
  | needlessValue (switch : String)
  | missing (p : Parameter)
  | notAnOption (p : Parameter) (value : String) (options : List String)
  | noSuchFile (p : Parameter) (path : String)
  | notAnInteger (p : Parameter) (value : String)
  | belowRange (p : Parameter) (value least : Int)
  | surplus (values : List String)
  /-- The name of a file with a character that none can have. -/
  | badFileName
  /-- Something that does not name a tree of a module. -/
  | noTarget (target : String)
  | noModule (name first : String)
  | noPackage (name inner package : String)
  | notATree (target : String)
deriving DecidableEq, Repr

/-- The name of a parameter in messages. -/
def Parameter.hint (p : Parameter) : String :=
  if p.switches.isEmpty then quoted p.name else " / ".intercalate (p.switches.map quoted)

namespace Misuse

/-- The wording of a bad value. -/
def badValue (p : Parameter) (why : String) : String :=
  "Invalid value for " ++ p.hint ++ ": " ++ why

/-- The wording of a bad target. -/
def badTarget (why : String) : String := "Invalid value for API: " ++ why

/-- The wording of an unknown name, with the known ones that are alike. -/
def unknown (what name : String) (alike : List String) : String :=
  "No such " ++ what ++ " " ++ quoted name ++ "." ++
    match alike with
    | [] => ""
    | [one] => " Did you mean " ++ quoted one ++ "?"
    | all => " (Did you mean one of: " ++ ", ".intercalate (all.map quoted) ++ "?)"

/-- The wording of a misuse.  Giving nothing at all has none, nor has a name that
no file can have. -/
def message : Misuse → Option String
  | .nothing | .badFileName => none
  | .noCommand => some "Missing command."
  | .unknownCommand name alike => some (unknown "command" name alike)
  | .unknownSwitch name alike => some (unknown "option" name alike)
  | .noValue switch => some ("Option " ++ quoted switch ++ " requires an argument.")
  | .needlessValue switch => some ("Option " ++ quoted switch ++ " does not take a value.")
  | .missing p =>
    some ((if p.switches.isEmpty then "Missing argument " else "Missing option ") ++ p.hint ++ ".")
  | .notAnOption p value options =>
    some (badValue p (quoted value ++ " is not one of " ++
      ", ".intercalate (options.map quoted) ++ "."))
  | .noSuchFile p path => some (badValue p ("Path " ++ quoted path ++ " does not exist."))
  | .notAnInteger p value =>
    some (badValue p (quoted value ++ " is not a valid integer" ++
      (match p.kind with
        | .atLeast _ => " range."
        | _ => ".")))
  | .belowRange p value least =>
    some (badValue p (toString value ++ " is not in the range x>=" ++ toString least ++ "."))
  | .surplus [value] => some ("Got unexpected extra argument (" ++ value ++ ")")
  | .surplus values =>
    some ("Got unexpected extra arguments (" ++ " ".intercalate values ++ ")")
  | .noTarget target => some (badTarget ("expected MODULE:ATTR, got " ++ quoted target))
  | .noModule name first =>
    some (badTarget ("cannot import " ++ name ++ ": No module named " ++ quoted first))
  | .noPackage name inner package =>
    some (badTarget ("cannot import " ++ name ++ ": No module named " ++ quoted inner ++ "; " ++
      quoted package ++ " is not a package"))
  | .notATree target => some (badTarget (target ++ " is not a route tree"))

end Misuse

/-! ## Telling switches from positions -/

/-- The arguments of a command, told apart. -/
structure Given where
  /-- Values of switches, in the order of first use. -/
  switched : Table String String := []
  positional : List String := []
  /-- Whether help is asked for. -/
  help : Bool := false
deriving DecidableEq, Repr, Inhabited

/-- A switch as it is written, and the value that is written with it. -/
def splitSwitch (arg : String) : String × Option String :=
  match arg.toList with
  | '-' :: '-' :: rest =>
    let name := rest.takeWhile (· != '=')
    if name.length < rest.length then
      ("--" ++ .ofList name, some (.ofList (rest.drop (name.length + 1))))
    else (arg, none)
  | '-' :: c :: rest =>
    (.ofList ['-', c], if rest.isEmpty then none else some (.ofList rest))
  | _ => (arg, none)

/-- Whether an argument is written as a switch. -/
def isSwitch (arg : String) : Bool :=
  match arg.toList with
  | '-' :: _ :: _ => true
  | _ => false

/-- The switch that asks for help. -/
def helpSwitch : String := "--help"

/-- The names that are most alike to an unknown one, in order. -/
def alikeTo (known : List String) (name : String) : List String :=
  (mostAlike 3 known name).mergeSort fun a b => a ≤ b

/-- The long ones of some switches that are alike to an unknown one, in order. -/
def alikeSwitches (known : List String) (switch : String) : List String :=
  let long (s : String) : Bool := "--".toList.isPrefixOf s.toList
  if long switch then alikeTo (known.filter long) switch else []

/-- The misuse of a switch that none of the known ones is. -/
def Misuse.ofUnknown (known : List String) (switch : String) : Misuse :=
  .unknownSwitch switch (alikeSwitches known switch)

/-- The misuse of a command that none of the known ones is. -/
def Misuse.ofUnknownCommand (known : List String) (name : String) : Misuse :=
  .unknownCommand name (alikeTo known name)

/-- Tells the arguments of a command apart. -/
def tellApart (parameters : List Parameter) (given : Given) : List String → Except Misuse Given
  | [] => .ok given
  | arg :: rest =>
    if arg == "--" then .ok { given with positional := given.positional ++ rest }
    else if isSwitch arg then
      let (switch, attached) := splitSwitch arg
      match parameters.find? (·.switches.contains switch), attached with
      | none, attached =>
        if switch != helpSwitch then
          .error (.ofUnknown (parameters.flatMap (·.switches) ++ [helpSwitch]) switch)
        else if attached.isSome then .error (.needlessValue switch)
        else tellApart parameters { given with help := true } rest
      | some p, some value =>
        tellApart parameters { given with switched := given.switched.put p.name value } rest
      | some p, none =>
        match rest with
        | [] => .error (.noValue switch)
        | value :: rest =>
          tellApart parameters { given with switched := given.switched.put p.name value } rest
    else tellApart parameters { given with positional := given.positional ++ [arg] } rest

/-! ## Checking values -/

/-- The value of a parameter. -/
inductive Argument where
  | text (s : String)
  | int (n : Int)
deriving DecidableEq, Repr

/-- Checks the value of a parameter; `isThere` tells the names of what exists. -/
def checkValue (isThere : String → Bool) (p : Parameter) (value : String) :
    Except Misuse Argument :=
  let named : Except Misuse Argument :=
    if value.toList.contains '\x00' then .error .badFileName else .ok (.text value)
  match p.kind with
  | .text => .ok (.text value)
  | .path => named
  | .oneOf options =>
    if options.contains value then .ok (.text value) else .error (.notAnOption p value options)
  | .existing => do
    let argument ← named
    if isThere value then return argument else throw (.noSuchFile p value)
  | .integer =>
    match Numeral.int? value.toList with
    | some n => .ok (.int n)
    | none => .error (.notAnInteger p value)
  | .atLeast least =>
    match Numeral.int? value.toList with
    | some n => if n < least then .error (.belowRange p n least) else .ok (.int n)
    | none => .error (.notAnInteger p value)

/-- The parameters in the order in which they are checked, each with its value. -/
def inOrder (parameters : List Parameter) (given : Given) : List (Parameter × Option String) :=
  let (positions, switched) := parameters.partition (·.switches.isEmpty)
  let used := given.switched.filterMap fun (name, value) =>
    (switched.find? (·.name == name)).map (·, some value)
  used ++ positions.zipIdx.map (fun (p, i) => (p, given.positional[i]?)) ++
    (switched.filter fun p => !given.switched.has p.name).map (·, none)

/-- Checks the values of all parameters, by name. -/
def arguments (isThere : String → Bool) (parameters : List Parameter) (given : Given) :
    Except Misuse (Table String Argument) := do
  let checked ← (inOrder parameters given).filterMapM fun (p, value?) =>
    match value? with
    | some value => return some (p.name, ← checkValue isThere p value)
    | none => if p.required then throw (.missing p) else return none
  match given.positional.drop (parameters.filter (·.switches.isEmpty)).length with
  | [] => return Table.ofList checked
  | surplus => throw (.surplus surplus)

/-- The text of an argument. -/
def textOf? (args : Table String Argument) (name : String) : Option String :=
  match args.find? name with
  | some (.text s) => some s
  | _ => none

/-- The integer of an argument. -/
def intOf? (args : Table String Argument) (name : String) : Option Int :=
  match args.find? name with
  | some (.int n) => some n
  | _ => none

end ApiTree.Command
