import ApiTree.Command.Run
import ApiTree.Json.Reader
import ApiTree.Source.Routes

/-!
# ApiTree.Main

The command line.  A module `a.b` is the file `a/b.json`: an object of `types`,
the declarations in order, and of `trees` by name.
-/

namespace ApiTree.Command

/-- Reads a module from the text of its file. -/
def Module.ofText (text : String) : Except Fault Module := do
  let j := (Json.ofText? text).getD .null
  let scope ← Source.declare (Source.items (Source.member j "types"))
  let named : Table String Json := match Source.member j "trees" with
    | .obj ms => ms
    | _ => []
  let read : Reading (List (String × Node)) := named.mapM fun (n, t) => do
    return (n, ← Source.node t)
  let (trees, scope) ← read.run scope
  return { catalog := scope.catalog, trees }

/-- The texts of those of the named files that exist. -/
def readFiles (paths : List String) : IO (Table String String) :=
  paths.filterMapM fun (path : String) => do
    try
      let text ← IO.FS.readFile path
      return some (path, text)
    catch _ => return none

/-- The values of those of the named variables that are set. -/
def readVariables (names : List String) : IO (List (String × String)) :=
  names.filterMapM fun name => do return (← IO.getEnv name).map (name, ·)

/-- The modules that arguments may name. -/
def readModules (args : List String) : IO (Table String Module) := do
  let names := (args.map fun a => (splitTarget a).1).filter fun n => !n.isEmpty && !isSwitch n
  let texts ← readFiles (names.eraseDups.map fun n => n.replace "." "/" ++ ".json")
  return texts.filterMap fun (path, text) =>
    match Module.ofText text with
    | .ok m => some ((String.ofList (path.toList.take (path.length - 5))).replace "/" ".", m)
    | .error _ => none

/-- Everything around a command that its arguments may name. -/
def readSurroundings (args : List String) : IO Surroundings := do
  let start := ({} : Settings.Naming).start.getD ""
  let named := Settings.names.flatMap fun n => [start.toLower ++ n, start ++ n.toUpper]
  return {
    environment := ← readVariables named
    files := ← readFiles (args.map tidy).eraseDups
    modules := ← readModules args }

/-- Writes a document, with the directories above it. -/
def Written.save (w : Written) : IO Unit := do
  for directory in directoriesOf w.path do
    try IO.FS.createDir directory catch _ => pure ()
  IO.FS.writeFile w.path w.text

end ApiTree.Command

open ApiTree.Command in
/-- Runs the command that the arguments name. -/
def main (args : List String) : IO UInt32 := do
  let outcome := run (← readSurroundings args) args
  for line in outcome.log do IO.eprintln line
  if let some w := outcome.written then w.save
  for line in outcome.lines do IO.println line
  if let some complaint := outcome.complaint then IO.eprintln ("Error: " ++ complaint)
  if let some fault := outcome.fault then IO.eprintln (fault.kind ++ ": " ++ fault.message)
  return UInt32.ofNat outcome.status
