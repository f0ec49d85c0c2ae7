/-!
# ApiTree.Text.Pieces

A text taken apart at a character.
-/

namespace ApiTree

/-- The runs of characters between separators. -/
def runsBetween (sep : Char) : List Char → List (List Char)
  | [] => [[]]
  | c :: cs =>
    match runsBetween sep cs with
    | [] => [[c]]
    | run :: runs => if c == sep then [] :: run :: runs else (c :: run) :: runs

/-- The pieces of a text between separators; without a separator the text is the
only piece. -/
def pieces (sep : Char) (s : String) : List String :=
  (runsBetween sep s.toList).map String.ofList

end ApiTree
