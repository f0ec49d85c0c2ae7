import ApiTree.Text.CharClass

/-!
# ApiTree.Text.Cleaned

Texts that stand indented in a program, without that indentation.
-/

namespace ApiTree

/-- Text with spaces for tabs; tabs stop at every eighth column. -/
def untabbed (column : Nat) : List Char → List Char
  | [] => []
  | c :: cs =>
    if c = '\t' then
      let width := 8 - column % 8
      List.replicate width ' ' ++ untabbed (column + width) cs
    else c :: untabbed (if c = '\n' || c = '\r' then 0 else column + 1) cs

/-- A text without the indentation of the program around it: the first line
loses its own, the others what they share, and empty lines at both ends go. -/
def cleaned (doc : String) : String :=
  let lines := ((String.ofList (untabbed 0 doc.toList)).splitOn "\n").map String.toList
  let rest := lines.drop 1
  let indents := (rest.filter (!·.all CharClass.isBlank)).map
    fun l => (l.takeWhile CharClass.isBlank).length
  let margin := indents.min?.getD 0
  let all := (lines.take 1).map (·.dropWhile CharClass.isBlank) ++ rest.map (·.drop margin)
  let kept := ((all.dropWhile List.isEmpty).reverse.dropWhile List.isEmpty).reverse
  "\n".intercalate (kept.map String.ofList)

end ApiTree
