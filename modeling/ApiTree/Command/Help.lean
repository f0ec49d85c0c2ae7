import ApiTree.Command.Arguments

/-!
# ApiTree.Command.Help

The help that commands print: how a command is used, what it does, and a table
of its switches.  Lines have at most 78 characters; the second column of a table
is folded between words.
-/

namespace ApiTree.Command

/-- A command as its help tells of it. -/
structure Form where
  name : String
  about : String
  parameters : List Parameter
deriving Repr

namespace Help

/-- The most characters of a line. -/
def lineWidth : Nat := 78

/-- Puts a word at the end of the first line, or on a line of its own before it. -/
def addWord (width : Nat) : List String → String → List String
  | [], word => [word]
  | line :: lines, word =>
    if line.length + 1 + word.length ≤ width then (line ++ " " ++ word) :: lines
    else word :: line :: lines

/-- A text without the blanks at its end. -/
def withoutEndBlanks (s : String) : String :=
  String.ofList (s.toList.reverse.dropWhile (· == ' ')).reverse

/-- The lines of a text that is folded between words. -/
def folded (width : Nat) (s : String) : List String :=
  ((s.splitOn " ").foldl (addWord width) []).reverse.map withoutEndBlanks

/-- As many words of a text as fit, with dots for the rest. -/
def clipped (width : Nat) (s : String) : String :=
  let words := s.splitOn " "
  let starts := (List.range words.length).map fun n => " ".intercalate (words.take n) ++ "..."
  if s.length ≤ width then s
  else (starts.reverse.find? (·.length ≤ width)).getD "..."

/-- A text of blanks. -/
def blanks (n : Nat) : String := String.ofList (List.replicate n ' ')

/-- The width of the first column of a table. -/
def firstWidth (rows : List (String × String)) : Nat :=
  rows.foldl (fun width row => max width row.1.length) 0

/-- The lines of a table of two columns. -/
def table (rows : List (String × String)) : List String :=
  let width := firstWidth rows + 2
  rows.flatMap fun (first, second) =>
    match folded (lineWidth - width - 2) second with
    | [] => ["  " ++ first]
    | line :: lines =>
      ("  " ++ first ++ blanks (width - first.length) ++ line) ::
        lines.map (blanks (width + 2) ++ ·)

/-- The lines of help from its parts. -/
def page (usage about : String) (sections : List (String × List String)) : List String :=
  ["Usage: " ++ usage, "", "  " ++ about] ++
    sections.flatMap fun (title, lines) => ["", title ++ ":"] ++ lines

/-- What stands for the value of a switch. -/
def placeholder : Kind → String
  | .text => "TEXT"
  | .oneOf options => "[" ++ "|".intercalate options ++ "]"
  | .path | .existing => "PATH"
  | .integer => "INTEGER"
  | .atLeast _ => "INTEGER RANGE"

/-- What is remarked after the text of a switch. -/
def remarks (p : Parameter) : List String :=
  (match p.kind with
    | .atLeast least => ["x>=" ++ toString least]
    | _ => []) ++ (if p.required then ["required"] else [])

/-- The row of a switch. -/
def row (p : Parameter) : String × String :=
  (", ".intercalate p.switches ++ " " ++ placeholder p.kind,
    p.about ++ match remarks p with
      | [] => ""
      | remarks => "  [" ++ "; ".intercalate remarks ++ "]")

/-- The row of the switch that asks for help. -/
def ownRow : String × String := (helpSwitch, "Show this message and exit.")

end Help

/-- The help of a command of a program. -/
def Form.help (program : String) (f : Form) : List String :=
  let (positions, switches) := f.parameters.partition (·.switches.isEmpty)
  Help.page (" ".intercalate ([program, f.name, "[OPTIONS]"] ++ positions.map (·.name))) f.about
    [("Options", Help.table (switches.map Help.row ++ [Help.ownRow]))]

/-- The help of a program. -/
def helpOf (program about : String) (commands : List Form) : List String :=
  let rows := commands.map fun f => (f.name, f.about)
  let width := Help.lineWidth - 6 - Help.firstWidth rows
  Help.page (program ++ " [OPTIONS] COMMAND [ARGS]...") about
    [("Options", Help.table [Help.ownRow]),
      ("Commands", Help.table (rows.map fun (name, about) => (name, Help.clipped width about)))]

end ApiTree.Command
