import ApiTree.Fault

/-!
# ApiTree.Sample.Source

Random draws.  A source gives words for all that is drawn from a range or a
list, and parts of a way for doubles; everything that is drawn is computed from
these, so a draw can be studied for any source.  `Congruential` is the source
of a seed.
-/

namespace ApiTree

/-- A source of random words and of random doubles. -/
class RandomSource (σ : Type) where
  /-- The next word and the source after it. -/
  next : σ → Nat × σ
  /-- The next part of a way, a double from zero to one, and the source after it. -/
  part : σ → Double × σ

/-- A linear congruential source of words below `2 ^ 53`. -/
structure Congruential where
  state : UInt64
  /-- How many words it gave. -/
  calls : Nat := 0
deriving DecidableEq, Repr, Inhabited

namespace Congruential

/-- The source of a seed. -/
def ofSeed (seed : Int) : Congruential := { state := .ofInt seed }

/-- The next word and the source after it. -/
def next (s : Congruential) : Nat × Congruential :=
  let state := s.state * 6364136223846793005 + 1442695040888963407
  ((state >>> 11).toNat, { state, calls := s.calls + 1 })

/-- The next part of a way, of which there are 1024 steps. -/
def part (s : Congruential) : Double × Congruential :=
  let (word, s) := s.next
  (.ofRatio false (word % 1025) 1024, s)

instance : RandomSource Congruential := ⟨next, part⟩

end Congruential

/-- Drawing from a source; a draw may fail. -/
abbrev Draw (σ : Type) := StateT σ (Except Fault)

namespace Draw

variable {σ : Type} [RandomSource σ] {α : Type}

/-- The next word. -/
def word : Draw σ Nat := modifyGet RandomSource.next

/-- A number of thousandths below one. -/
def thousandths : Draw σ Nat := do return (← word) % 1000

/-- An integer from `low` to `high`. -/
def between (low high : Int) : Draw σ Int := do
  if high < low then throw (.emptyRange (.int low) (.int high))
  let upper ← word
  let lower ← word
  return low + ((upper * powerOf 2 53 + lower : Nat) : Int) % (high - low + 1)

/-- One of the given elements. -/
def choice (xs : List α) : Draw σ α := do
  let k ← word
  match xs[k % xs.length]? with
  | some x => return x
  | none => throw .nothingToChoose

/-- A number from `low` to `high`, a whole number of steps of one above `low`. -/
def above (low high : Number) : Draw σ Number := do
  if high.below low then throw (.emptyRange low high)
  let upper ← word
  let lower ← word
  let steps : Option Number := do
    Number.remainder? (.int (upper * powerOf 2 53 + lower))
      (← Number.add? (← high.sub? low) (.int 1))
  match steps.bind low.add? with
  | some n => return n
  | none => throw .tooLarge

/-- A number from `low` to `high` that is often one of the two, or small. -/
def bounded (low high : Number) : Draw σ Number := do
  let k ← thousandths
  if k < 100 then return low
  else if k < 200 then return high
  else if k < 600 then
    let n : Number := .int (← between (-100) 100)
    let n := if n.below high then n else high
    return if low.below n then n else low
  else above low high

/-- The next part of a way. -/
def part : Draw σ Double := modifyGet RandomSource.part

/-- A double on the way from `low` to `high`: the part of the way is taken of the
distance, and each step of the arithmetic is rounded. -/
def uniform (low high : Double) : Draw σ Double := do
  return low.add ((high.sub low).mul (← part))

/-- A double from minus to plus a million. -/
def double : Draw σ Double := uniform (.ofInt (-1000000)) (.ofInt 1000000)

/-- A number of draws, one after the other. -/
def times (d : Draw σ α) : Nat → Draw σ (List α)
  | 0 => return []
  | n + 1 => do
    let x ← d
    let xs ← times d n
    return x :: xs

/-- Up to `most` draws: first their number, then each. -/
def upTo (most : Nat) (d : Draw σ α) : Draw σ (List α) := do
  times d (← between 0 most).toNat

/-- The characters of texts that are drawn. -/
def alphabet : List Char :=
  "abcdefghijklmnopqrstuvwxyzABCDEFGHIJKLMNOPQRSTUVWXYZ0123456789 -_.".toList

/-- A text of up to twelve characters. -/
def text : Draw σ String := do return .ofList (← upTo 12 (choice alphabet))

end Draw
end ApiTree
