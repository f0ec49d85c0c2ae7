import ApiTree.Command.Files
import ApiTree.Command.Help
import ApiTree.Compilation.Document
import ApiTree.Conformance.Report
import ApiTree.Document.Writing
import ApiTree.Json.Printer
import ApiTree.Route.Node
import ApiTree.Settings.Basic
import ApiTree.Yaml.Printer

/-!
# ApiTree.Command.Run

The commands of the program: `compile` writes the document of a tree, and
`validate` checks the types of its bodies.  A command is a function of its
arguments and its surroundings; what it does comes out as an `Outcome`.
-/

namespace ApiTree.Command

/-- A module that trees may come from, with the declarations that they refer to. -/
structure Module where
  catalog : Catalog := []
  trees : Table String Node := []
  /-- Whether there can be modules inside. -/
  isPackage : Bool := false
deriving Inhabited

/-- What a command finds around it. -/
structure Surroundings where
  environment : List (String × String) := []
  /-- The texts of files by their tidy names. -/
  files : Files := []
  modules : Table String Module := []
deriving Inhabited

/-- The form of a written document. -/
inductive FileFormat where
  | json
  | yaml
deriving DecidableEq, Repr

/-- A document to be written. -/
structure Written where
  path : String
  format : FileFormat
  document : Json
deriving Repr

/-- The text of a document to be written. -/
def Written.text (w : Written) : String :=
  match w.format with
  | .json => w.document.indented ++ "\n"
  | .yaml => Yaml.ofJson w.document

/-- What a command does. -/
structure Outcome where
  status : Nat := 0
  /-- The lines that are printed. -/
  lines : List String := []
  /-- What the command complains of. -/
  complaint : Option String := none
  /-- A fault that nothing was prepared for. -/
  fault : Option Fault := none
  /-- The lines of the log. -/
  log : List String := []
  written : Option Written := none
deriving Repr, Inhabited

/-- Why a command stops. -/
inductive Stop where
  | misuse (m : Misuse)
  | complaint (message : String)
  | fault (f : Fault)

/-- The outcome of a command that stopped. -/
def Stop.outcome : Stop → Outcome
  | .misuse m => { status := 2, complaint := m.message }
  | .complaint message => { status := 1, complaint := some message }
  | .fault f => { status := 1, fault := some f }

/-- A command that may stop. -/
abbrev Running := Except Stop

/-! ## Parameters -/

/-- The tree that a command works on. -/
def target : Parameter := { name := "API", required := true }

/-- The file of settings. -/
def configFile : Parameter :=
  { name := "config", switches := ["--config"], kind := .existing
    about := "routedoc YAML config file." }

/-- The command that writes the document of a tree. -/
def compileForm : Form where
  name := "compile"
  about := "Compile the route tree API (MODULE:ATTR) into an OpenAPI document."
  parameters :=
    [target,
      { name := "output", switches := ["-o", "--output"], kind := .path, required := true
        about := "Output file for the OpenAPI document." },
      { name := "format", switches := ["--format"], kind := .oneOf ["auto", "yaml", "json"]
        about := "Output format (auto: by file suffix)." },
      configFile,
      { name := "title", switches := ["--title"], about := "info.title (overrides config)." },
      { name := "api-version", switches := ["--api-version"]
        about := "info.version (overrides config)." }]

/-- The command that checks the types of the bodies of a tree. -/
def validateForm : Form where
  name := "validate"
  about := "Check that every payload type of API encodes to its published schema."
  parameters :=
    [target,
      { name := "samples", switches := ["--samples"], kind := .atLeast 1
        about := "Samples per payload type (overrides config)." },
      { name := "seed", switches := ["--seed"], kind := .integer
        about := "Random seed (overrides config)." },
      configFile]

/-! ## Steps -/

/-- Puts a misuse in the place of why a command stops. -/
def orMisuse {α : Type} : Except Misuse α → Running α
  | .ok a => .ok a
  | .error .badFileName => .error (.fault .nullInName)
  | .error m => .error (.misuse m)

/-- Whether a fault is one that trees and types are expected to have. -/
def isExpected : Fault → Bool
  | .conflict _ | .noGenerator _ | .noEncoder _ => true
  | _ => false

/-- Puts a fault in the place of why a command stops. -/
def orFault {α : Type} : Except Fault α → Running α
  | .ok a => .ok a
  | .error f => .error (if isExpected f then .complaint f.message else .fault f)

/-- The complaint about bad settings, if a fault is one. -/
def settingsComplaint? : Fault → Option String
  | .invalid issues =>
    let n := issues.length
    some (toString n ++ " validation error" ++ (if n = 1 then "" else "s") ++ " for RouteDocConfig")
  | .badSetting s => some (Fault.badSetting s).message
  | .namelessSetting s => some (Fault.namelessSetting s).message
  | .notAMapping file => some (Fault.notAMapping file).message
  | .badYaml e =>
    if ["YAMLError", "ValueError"].contains (Fault.badYaml e).kind then some e.message else none
  | _ => none

/-- The settings that a command runs with, and the least level that it tells of. -/
def settings (s : Surroundings) (args : Table String Argument) : Running (Settings × Level) := do
  let file ← match (textOf? args "config").map tidy with
    | none => pure none
    | some path =>
      match s.files.locate path with
      | .file text => pure (some (path, text))
      | .directory => throw (.fault (.isADirectory path))
      | .nothing => pure (some (path, ""))
  match Settings.load s.environment file with
  | .ok settings => return (settings, ← orFault (Level.ofName settings.logLevel))
  | .error f =>
    match settingsComplaint? f with
    | some message => throw (.complaint ("invalid configuration: " ++ message))
    | none => throw (.fault f)

/-- The module and the name of a target. -/
def splitTarget (target : String) : String × String :=
  let module := target.toList.takeWhile (· != ':')
  (.ofList module, .ofList (target.toList.drop (module.length + 1)))

/-- The misuse of the name of a module that does not exist: where it departs from the
names of those that do. -/
def missingModule (s : Surroundings) (name : String) : Misuse :=
  let parts := name.splitOn "."
  let upTo (n : Nat) : String := ".".intercalate (parts.take n)
  let known := ((List.range parts.length).drop 1).reverse.findSome? fun n =>
    (s.modules.find? (upTo n)).map fun m => (n, m)
  match known with
  | some (n, m) =>
    if m.isPackage then .noModule name (upTo (n + 1)) else .noPackage name (upTo (n + 1)) (upTo n)
  | none => .noModule name (upTo 1)

/-- The module of a name. -/
def findModule (s : Surroundings) (name : String) : Running Module :=
  match s.modules.find? name with
  | some m => .ok m
  | none => .error (.misuse (missingModule s name))

/-- The tree that a target names. -/
def findTree (s : Surroundings) (target : String) : Running (Catalog × Tree) := do
  let (name, entry) := splitTarget target
  if name.isEmpty || entry.isEmpty then throw (.misuse (.noTarget target))
  if ".".toList.isPrefixOf name.toList then throw (.fault (.relativeModule name))
  let m ← findModule s name
  match m.trees.find? entry with
  | some node =>
    if node.isTree then return (m.catalog, node.toTree m.catalog)
    else throw (.misuse (.notATree target))
  | none => throw (.misuse (.notATree target))

/-- The lines of a log of events. -/
def logLines (settings : Settings) (least : Level) (events : List Event) : List String :=
  (events.filter fun e => least.passes e.level).map fun e =>
    match settings.logFormat with
    | .json => (e.line none).asciiLine
    | .console => e.consoleLine

/-! ## Commands -/

/-- The form that a document is written in: as asked for, or by the ending of the
file. -/
def formatFor (asked : Option String) (path : String) : FileFormat :=
  match asked with
  | some "json" => .json
  | some "yaml" => .yaml
  | _ => if ending path == ".json" then .json else .yaml

/-- Writes the document of a tree. -/
def compileDocument (s : Surroundings) (args : Table String Argument) : Running Outcome := do
  let (settings, least) ← settings s args
  let (c, tree) ← findTree s ((textOf? args "API").getD "")
  let info : Info :=
    { title := (textOf? args "title").getD settings.title
      version := (textOf? args "api-version").getD settings.version
      description := settings.description }
  let compiled ← orFault (compile c tree info (settings.servers.map fun url => { url }))
  let path := tidy ((textOf? args "output").getD "")
  if let some fault := s.files.obstacle? path then throw (.fault fault)
  return {
    lines := ["Wrote " ++ toString compiled.document.paths.length ++ " paths to " ++ path]
    log := logLines settings least compiled.events
    written := some ⟨path, formatFor (textOf? args "format") path, compiled.document.toJson⟩ }

/-- The lines that tell of a type. -/
def sectionLines (s : Section) : List String :=
  match s.outcome.violation with
  | none => ["PASS " ++ s.label ++ " (" ++ toString s.outcome.checked ++ " samples)"]
  | some v =>
    ["FAIL " ++ s.label ++ ": " ++ v.constraint ++ " at " ++ v.path "$" ++ ": " ++ v.message,
      "     sample: " ++ s.outcome.sample.asciiLine]

/-- Checks the types of the bodies of a tree. -/
def validateTypes (s : Surroundings) (args : Table String Argument) : Running Outcome := do
  let (settings, least) ← settings s args
  let (c, tree) ← findTree s ((textOf? args "API").getD "")
  let samples := (intOf? args "samples").getD settings.samplesPerType
  let seed := ((intOf? args "seed").or settings.seed).getD 0
  let (report, _) ← orFault ((c.conformance tree samples {}).run (Congruential.ofSeed seed))
  let failed := report.failures.length
  return {
    status := if failed = 0 then 0 else 1
    lines := report.sections.flatMap sectionLines ++
      [toString (report.sections.length - failed) ++ " passed, " ++ toString failed ++ " failed"]
    log := logLines settings least report.events }

/-- A command with its work. -/
structure Job where
  form : Form
  work : Surroundings → Table String Argument → Running Outcome

/-- The commands of the program. -/
def jobs : List Job := [⟨compileForm, compileDocument⟩, ⟨validateForm, validateTypes⟩]

/-- The name of the program. -/
def program : String := "main"

/-- What the program is for. -/
def purpose : String := "routedoc: compile route trees to OpenAPI and check payload conformance."

/-- Runs a command with its arguments. -/
def Job.run (job : Job) (s : Surroundings) (args : List String) : Running Outcome := do
  let given ← orMisuse (tellApart job.form.parameters {} args)
  if given.help then return { lines := job.form.help program }
  job.work s (← orMisuse (arguments s.files.exist job.form.parameters given))

/-- The arguments from the command on, and whether help is asked for before it. -/
def beforeCommand (help : Bool) : List String → Except Misuse (Bool × List String)
  | [] => .ok (help, [])
  | arg :: rest =>
    if arg == "--" then beforeCommand help rest
    else if isSwitch arg then
      let (switch, attached) := splitSwitch arg
      if switch != helpSwitch then .error (.ofUnknown [helpSwitch] switch)
      else if attached.isSome then .error (.needlessValue switch)
      else beforeCommand true rest
    else .ok (help, arg :: rest)

/-- Runs the command that the arguments name. -/
def execute (s : Surroundings) (args : List String) : Running Outcome := do
  if args.isEmpty then throw (.misuse .nothing)
  let (help, args) ← orMisuse (beforeCommand false args)
  if help then return { lines := helpOf program purpose (jobs.map (·.form)) }
  match args with
  | [] => throw (.misuse .noCommand)
  | name :: args =>
    match jobs.find? (·.form.name == name) with
    | some job => job.run s args
    | none => throw (.misuse (.ofUnknownCommand (jobs.map (·.form.name)) name))

/-- Runs the program. -/
def run (s : Surroundings) (args : List String) : Outcome :=
  match execute s args with
  | .ok outcome => outcome
  | .error stop => stop.outcome

end ApiTree.Command
