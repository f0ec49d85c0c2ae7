import ApiTree.Text.CharClass
import ApiTree.Text.Case

/-!
# ApiTree.Pattern.Basic

Patterns over text and whether one occurs in a text.  A pattern is matched at a
place of the text together with what has to match after it, so that a choice
taken too early can be taken back; what a group has taken is kept with the
place, for references to the group.
-/

namespace ApiTree

/-- A member of a character set; single characters are code points. -/
inductive CharItem where
  | one (code : Nat)
  | range (lo hi : Nat)
  | digit (negated : Bool)
  | word (negated : Bool)
  | blank (negated : Bool)
deriving DecidableEq, Repr

/-- How characters are compared and classed. -/
structure Letters where
  /-- Whether upper and lower case are the same. -/
  anyCase : Bool := false
  /-- Whether classes and cases are those of ASCII only. -/
  ascii : Bool := false
deriving DecidableEq, Repr, Inhabited

/-- A set of characters, or the complement of one. -/
structure CharSet where
  letters : Letters := ⟨false, false⟩
  negated : Bool
  items : List CharItem
deriving DecidableEq, Repr

/-- How often a repeat tries its body first. -/
inductive Manner where
  /-- As often as it can. -/
  | greedy
  /-- As little as it can. -/
  | modest
  /-- As often as it can, and never takes that back. -/
  | firm
deriving DecidableEq, Repr

/-- A pattern. -/
inductive Pattern where
  /-- Matches the empty text. -/
  | blank
  /-- One character of a set. -/
  | chars (set : CharSet)
  | cat (first second : Pattern)
  | alt (left right : Pattern)
  /-- At least `lo` times, and at most `hi` times if there is a bound. -/
  | loop (manner : Manner) (lo : Nat) (hi : Option Nat) (body : Pattern)
  /-- A group whose text can be referred to by its number. -/
  | group (number : Nat) (body : Pattern)
  /-- The first way to match the body only. -/
  | atomic (body : Pattern)
  /-- Whether the body matches here, or that many characters back; takes
  nothing. -/
  | look (back : Option Nat) (negated : Bool) (body : Pattern)
  /-- The text that a group took. -/
  | same (letters : Letters) (number : Nat)
  /-- One pattern if a group took something, the other if not. -/
  | given (number : Nat) (yes no : Pattern)
  /-- The start of the text. -/
  | textStart
  /-- The start of a line. -/
  | lineStart
  /-- The end of the text, or before a final line feed. -/
  | lastLineEnd
  /-- The end of a line. -/
  | lineEnd
  /-- The end of the text. -/
  | textEnd
  /-- Between a word character and another one, or nowhere so if negated. -/
  | wordEdge (letters : Letters) (negated : Bool)
deriving DecidableEq, Repr, Inhabited

namespace Letters

/-- What two characters that are the same here have in common. -/
def fold (l : Letters) (n : Nat) : Nat :=
  if !l.anyCase then n
  else if l.ascii then (if n < 0x80 then Case.lowerCode n else n)
  else Case.foldCode n

/-- The characters that are the same as one. -/
def variants (l : Letters) (n : Nat) : List Nat :=
  if !l.anyCase then [n]
  else if l.ascii then
    if n < 0x80 then (Case.variants n).filter (· < 0x80) else [n]
  else n :: Case.variants n

/-- Whether a character is of a class, given for the ASCII characters and for
all. -/
def inClass (l : Letters) (narrow wide : Char → Bool) (c : Char) : Bool :=
  if l.ascii then c.toNat < 0x80 && narrow c else wide c

/-- Whether a character is a digit. -/
def isDigit (l : Letters) : Char → Bool := l.inClass Char.isDigit CharClass.isDigit

/-- Whether a character is a letter, a number or the underscore. -/
def isWord (l : Letters) : Char → Bool := l.inClass CharClass.isWord CharClass.isWord

/-- Whether a character is a blank; of the ASCII separators only the space and
those of lines count in ASCII. -/
def isBlank (l : Letters) : Char → Bool :=
  l.inClass (fun c => c == ' ' || (9 ≤ c.toNat && c.toNat ≤ 13)) CharClass.isBlank

end Letters

/-- Whether a character matches a member of a set. -/
def CharItem.holds (l : Letters) (c : Char) : CharItem → Bool
  | .one n => l.fold c.toNat == l.fold n
  | .range lo hi => (l.variants c.toNat).any fun n => lo ≤ n && n ≤ hi
  | .digit neg => l.isDigit c != neg
  | .word neg => l.isWord c != neg
  | .blank neg => l.isBlank c != neg

/-- Whether a character belongs to a set. -/
def CharSet.holds (s : CharSet) (c : Char) : Bool :=
  s.items.any (·.holds s.letters c) != s.negated

namespace Pattern

/-- A set of one character. -/
def char (letters : Letters) (code : Nat) : Pattern := .chars ⟨letters, false, [.one code]⟩

/-- One after the other. -/
def seq (ps : List Pattern) : Pattern := ps.foldr .cat .blank

/-- A place in a text: the characters before it, last first, what follows, and
the places where groups began and ended. -/
structure Spot where
  before : List Char
  rest : List Char
  starts : List (Nat × Nat)
  ends : List (Nat × Nat)

namespace Spot

/-- The number of characters before a place. -/
def position (s : Spot) : Nat := s.before.length

/-- Whether the place lies between a word character and another one. -/
def onEdge (l : Letters) (s : Spot) : Bool :=
  s.before.head?.any l.isWord != s.rest.head?.any l.isWord

/-- The place one character later, if that character is good. -/
def next? (good : Char → Bool) (s : Spot) : Option Spot :=
  match s.rest with
  | c :: rest => if good c then some { s with before := c :: s.before, rest } else none
  | [] => none

/-- The place `n` characters earlier, if there is one. -/
def back? (n : Nat) (s : Spot) : Option Spot :=
  if n ≤ s.before.length then
    some { s with before := s.before.drop n, rest := (s.before.take n).reverse ++ s.rest }
  else none

/-- The place with the groups of another. -/
def withGroups (s t : Spot) : Spot := { s with starts := t.starts, ends := t.ends }

/-- The text that a group took, if it took one. -/
def taken? (s : Spot) (number : Nat) : Option (List Char) :=
  match s.starts.lookup number, s.ends.lookup number with
  | some a, some b =>
    if a ≤ b then some (((s.before.reverse ++ s.rest).take b).drop a) else none
  | _, _ => none

/-- The place after a text that is the same as the given one. -/
def after? (l : Letters) : List Char → Spot → Option Spot
  | [], s => some s
  | c :: cs, s => (s.next? fun d => l.fold d.toNat == l.fold c.toNat).bind (after? l cs)

/-- The places of a text in order. -/
def all (before : List Char) : List Char → List Spot
  | [] => [⟨before, [], [], []⟩]
  | c :: rest => ⟨before, c :: rest, [], []⟩ :: all (c :: before) rest

end Spot

/-- What is left to match after a pattern: the last place, if it matches. -/
abbrev Rest := Spot → Option Spot

/-- Repeats a body that is matched by `body`, then matches what is left.  After
the least number of times the body is not repeated where it took nothing the
time before, at the place `last`. -/
def repeated (body : Rest → Rest) (k : Rest) (modest : Bool) :
    Nat → Nat → Option Nat → Option Nat → Rest
  | 0, _, _, _, _ => none
  | fuel + 1, lo + 1, hi, last, s =>
    body (repeated body k modest fuel lo (hi.map (· - 1)) last) s
  | fuel + 1, 0, hi, last, s =>
    let more (_ : Unit) : Option Spot :=
      if hi = some 0 ∨ last = some s.position then none
      else body (repeated body k modest fuel 0 (hi.map (· - 1)) (some s.position)) s
    if modest then (k s).orElse more else (more ()).orElse fun _ => k s

/-- Repeats a body as often as it can: the place after that. -/
def exhausted (body : Rest → Rest) : Nat → Nat → Option Nat → Option Nat → Rest
  | 0, _, _, _, _ => none
  | fuel + 1, lo + 1, hi, last, s =>
    (body some s).bind (exhausted body fuel lo (hi.map (· - 1)) last)
  | fuel + 1, 0, hi, last, s =>
    if hi = some 0 ∨ last = some s.position then some s
    else
      match body some s with
      | some t => exhausted body fuel 0 (hi.map (· - 1)) (some s.position) t
      | none => some s

/-- Goes on if a condition holds. -/
def guarded (holds : Bool) (k : Rest) (s : Spot) : Option Spot := if holds then k s else none

/-- Matches a pattern at a place and then what is left to match. -/
def run : Pattern → Rest → Rest
  | .blank, k, s => k s
  | .chars set, k, s => (s.next? set.holds).bind k
  | .cat p q, k, s => run p (run q k) s
  | .alt p q, k, s => (run p k s).orElse fun _ => run q k s
  | .loop .firm lo hi body, k, s =>
    (exhausted (run body) (lo + s.rest.length + 2) lo hi none s).bind k
  | .loop manner lo hi body, k, s =>
    repeated (run body) k (manner == .modest) (lo + s.rest.length + 2) lo hi none s
  | .group n body, k, s =>
    run body (fun t => k { t with ends := (n, t.position) :: t.ends })
      { s with starts := (n, s.position) :: s.starts }
  | .atomic body, k, s => (run body some s).bind k
  | .look back negated body, k, s =>
    let found := (match back with
      | none => some s
      | some n => s.back? n).bind (run body some)
    if negated then guarded found.isNone k s else found.bind fun t => k (s.withGroups t)
  | .same l n, k, s => ((s.taken? n).bind fun text => s.after? l text).bind k
  | .given n yes no, k, s => if (s.taken? n).isSome then run yes k s else run no k s
  | .textStart, k, s => guarded s.before.isEmpty k s
  | .lineStart, k, s => guarded (s.before.isEmpty || s.before.head? == some '\n') k s
  | .lastLineEnd, k, s => guarded (s.rest.isEmpty || s.rest == ['\n']) k s
  | .lineEnd, k, s => guarded (s.rest.isEmpty || s.rest.head? == some '\n') k s
  | .textEnd, k, s => guarded s.rest.isEmpty k s
  | .wordEdge l negated, k, s =>
    guarded (!(s.before.isEmpty && s.rest.isEmpty) && s.onEdge l != negated) k s

/-- The pattern for which a text ends at its very end only, also where it ends with
a line feed. -/
def strict : Pattern → Pattern
  | .cat p q => .cat (strict p) (strict q)
  | .alt p q => .alt (strict p) (strict q)
  | .loop manner lo hi body => .loop manner lo hi (strict body)
  | .group n body => .group n (strict body)
  | .atomic body => .atomic (strict body)
  | .look back negated body => .look back negated (strict body)
  | .given n yes no => .given n (strict yes) (strict no)
  | .lastLineEnd => .textEnd
  | p => p

/-- Whether the pattern occurs somewhere in the text. -/
def occursIn (p : Pattern) (text : String) : Bool :=
  (Spot.all [] text.toList).any fun s => (run p some s).isSome

end Pattern
end ApiTree
