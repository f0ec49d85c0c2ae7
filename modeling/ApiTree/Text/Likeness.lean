/-!
# ApiTree.Text.Likeness

How alike two words are.  Their longest common run is taken first, the earliest
of equals, then in the same way what they share to its left and to its right.
Words are alike if six tenths of all their characters are shared.
-/

namespace ApiTree
namespace Likeness

/-- The length of the common start of two words. -/
def commonStart : List Char → List Char → Nat
  | a :: as, b :: bs => if a = b then commonStart as bs + 1 else 0
  | _, _ => 0

/-- A run of characters in two words: where it starts in either, and its length. -/
structure Run where
  left : Nat
  right : Nat
  length : Nat
deriving DecidableEq, Repr

/-- The longest run that two words share, the earliest of equals. -/
def longestRun (a b : List Char) : Run :=
  let runs := (List.range a.length).flatMap fun i =>
    (List.range b.length).map fun j => ⟨i, j, commonStart (a.drop i) (b.drop j)⟩
  runs.foldl (fun best r => if best.length < r.length then r else best) ⟨0, 0, 0⟩

/-- The number of characters that two words share, run by run.  Every run takes
a character of the first word, whose length thus suffices as the depth. -/
def shared : Nat → List Char → List Char → Nat
  | 0, _, _ => 0
  | depth + 1, a, b =>
    let r := longestRun a b
    if r.length = 0 then 0
    else r.length + shared depth (a.take r.left) (b.take r.right) +
      shared depth (a.drop (r.left + r.length)) (b.drop (r.right + r.length))

end Likeness

namespace Likeness

/-- What two words share, of all their characters. -/
def share (a b : String) : Nat × Nat :=
  let (a, b) := (a.toList, b.toList)
  (2 * shared a.length a b, a.length + b.length)

/-- Whether one share is greater than another one. -/
def above (p q : Nat × Nat) : Bool := q.1 * p.2 < p.1 * q.2

end Likeness

/-- Whether two words are alike. -/
def isAlike (a b : String) : Bool :=
  let (part, whole) := Likeness.share a b
  6 * whole ≤ 10 * part

/-- Up to `n` of the words that are alike to a word, the most alike first, and of
equally alike ones the last in order. -/
def mostAlike (n : Nat) (words : List String) (word : String) : List String :=
  let before (a b : String) : Bool :=
    let (p, q) := (Likeness.share a word, Likeness.share b word)
    Likeness.above p q || (!Likeness.above q p && b ≤ a)
  ((words.filter fun w => isAlike w word).mergeSort before).take n

end ApiTree
