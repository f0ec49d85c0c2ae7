import ApiTree.Text.Case
import ApiTree.Validation.Checked
import ApiTree.Yaml.Basic

/-!
# ApiTree.Settings.Basic

The settings of the program.  They come in layers: a variable of the
environment counts more than an entry of the file, and an entry of the file more
than the default.  All layers are put together before anything is checked, so a
bad entry that a variable replaces does no harm.
-/

namespace ApiTree

/-- The form of the lines of a log. -/
inductive LogFormat where
  | console
  | json
deriving DecidableEq, Repr, Inhabited

/-- The name of a form. -/
def LogFormat.name : LogFormat → String
  | .console => "console"
  | .json => "json"

/-- The settings. -/
structure Settings where
  title : String := ""
  version : String := ""
  description : Option String := none
  servers : List String := []
  samplesPerType : Int := 100
  seed : Option Int := none
  logFormat : LogFormat := .console
  logLevel : String := "INFO"
deriving DecidableEq, Repr, Inhabited

namespace Settings

/-- The names of settings. -/
def names : List String :=
  ["title", "version", "description", "servers", "samples_per_type", "seed", "log_format",
    "log_level"]

/-- Which variables of the environment are settings and how they are read.
Entries of the file can change that. -/
structure Naming where
  /-- What the names of the variables begin with, if that is a text. -/
  start : Option String := some "ROUTEDOC_"
  /-- Whether upper and lower case differ in names. -/
  exact : Bool := false
  /-- Whether variables without a text are left out. -/
  skipEmpty : Bool := false
  /-- The text that stands for null. -/
  nullWord : Option String := none
deriving DecidableEq, Repr, Inhabited

/-- How variables are read beside a file with some entries. -/
def Naming.ofMembers (ms : Json.Members) : Naming where
  start := match Table.find? ms "_env_prefix" with
    | some (.str s) => some s
    | some .null | none => some "ROUTEDOC_"
    | some _ => none
  exact := ((Table.find? ms "_case_sensitive").map Json.truthy).getD false
  skipEmpty := ((Table.find? ms "_env_ignore_empty").map Json.truthy).getD false
  nullWord := match Table.find? ms "_env_parse_none_str" with
    | some (.str s) => some s
    | _ => none

/-- The form of the lines of a log, by name. -/
def checkFormat : Json → Checked LogFormat
  | .str "console" => pure .console
  | .str "json" => pure .json
  | _ => .wrong "literal_error"

/-- Checks entries by name; entries of other names are ignored. -/
def ofMembers (ms : Json.Members) : Checked Settings :=
  Settings.mk
    <$> Checked.member ms ["title"] Checked.text ""
    <*> Checked.member ms ["version"] Checked.text ""
    <*> Checked.member ms ["description"] (Checked.optional Checked.text) none
    <*> Checked.member ms ["servers"] (Checked.items Checked.text) []
    <*> Checked.member ms ["samples_per_type"] Checked.integer 100
    <*> Checked.member ms ["seed"] (Checked.optional Checked.integer) none
    <*> Checked.member ms ["log_format"] checkFormat .console
    <*> Checked.member ms ["log_level"] Checked.text "INFO"

/-- The last variable of the environment for a setting, where names begin with
`start`. -/
def valueOf? (naming : Naming) (start : String) (environment : List (String × String))
    (name : String) : Option String :=
  let form (s : String) : String := if naming.exact then s else Case.lower s
  let found? := (environment.filter fun v => !(naming.skipEmpty && v.2.isEmpty)).reverse.find?
    fun v => form v.1 == form (start ++ name)
  found?.map (·.2)

/-- The entry that a variable makes: the servers are written as JSON, everything
else as text.  A null that is written as JSON makes none. -/
def ofVariable (naming : Naming) (name value : String) : Except Fault (Option Json) :=
  if naming.nullWord = some value then .ok (some .null)
  else if name == "servers" then
    match Json.ofText? value with
    | some .null => .ok none
    | some j => .ok (some j)
    | none => .error (.badSetting name)
  else .ok (some (.str value))

/-- The entries that the environment makes. -/
def ofEnvironment (naming : Naming) (environment : List (String × String)) :
    Except Fault Json.Members := do
  let some start := naming.start | throw (.namelessSetting (names.headD ""))
  let given := names.filterMap fun n => (valueOf? naming start environment n).map (n, ·)
  let entries ← given.mapM fun (n, v) => do return (← ofVariable naming n v).map (n, ·)
  return entries.filterMap id

/-- The entries of a file.  A document that counts as false has none. -/
def ofFile (file text : String) : Except Fault Json.Members :=
  match Yaml.ofText text with
  | .error e => .error (.badYaml e)
  | .ok (.map es) =>
    if es.all fun e => e.1.kind == "str" then
      match (Yaml.map es).toJson with
      | .obj ms => .ok ms
      | _ => .ok []
    else .error .keyIsNoText
  | .ok y => if y.toJson.truthy then .error (.notAMapping file) else .ok []

/-- Entries in layers: those above count more. -/
def layered (above below : Json.Members) : Json.Members :=
  above.foldl (fun ms e => Table.put ms e.1 e.2) below

/-- The settings of an environment and of a file, given by its name and text. -/
def load (environment : List (String × String)) (file : Option (String × String)) :
    Except Fault Settings := do
  let below ← match file with
    | some (name, text) => ofFile name text
    | none => pure []
  let above ← ofEnvironment (.ofMembers below) environment
  (ofMembers (layered above below)).toExcept

end Settings
end ApiTree
