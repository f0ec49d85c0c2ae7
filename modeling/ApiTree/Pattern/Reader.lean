import ApiTree.Number.Numeral
import ApiTree.Number.Power
import ApiTree.Pattern.Basic
import ApiTree.Text.CharName
import ApiTree.Text.Quoted

/-!
# ApiTree.Pattern.Reader

Reading the notation of patterns: literals, `.`, sets, the classes `\d \w \s`
and their complements, groups and references to them, alternation, the repeats
`* + ? {m,n}` with their modest and firm forms, looks ahead and back,
conditions on groups, flags, and the anchors `^ $ \A \Z \b \B`.  What is wrong
with a notation is reported with the place where it is wrong.
-/

namespace ApiTree
namespace Pattern

/-- What is wrong with a notation. -/
inductive Mistake where
  | openGroup
  | closedNothing
  | openSet
  | openComment
  | nothingToRepeat
  | repeatOfRepeat
  | repeatBounds
  | tooManyTimes
  | badRange (lo hi : String)
  | badEscape (text : String)
  | cutEscape (text : String)
  | largeOctal (text : String)
  | endingBackslash
  | noSuchGroup (n : Nat)
  | groupStillOpen
  | groupOfSameLook
  | groupZero
  | unknownGroup (mark : String)
  | endInGroup
  | missing (what : String)
  | openName (closing : Char)
  | badName (name : String)
  | unknownName (name : String)
  | nameTaken (name : String) (number earlier : Nat)
  | unknownCharacter (name : String)
  | thirdBranch
  | lateFlags
  | unknownFlag
  | badFlags (reason : String)
  | twoAlphabets
  | lookOfManyWidths
  | lookTooFar
deriving DecidableEq, Repr

/-- The wording of a mistake. -/
def Mistake.text : Mistake → String
  | .openGroup => "missing ), unterminated subpattern"
  | .closedNothing => "unbalanced parenthesis"
  | .openSet => "unterminated character set"
  | .openComment => "missing ), unterminated comment"
  | .nothingToRepeat => "nothing to repeat"
  | .repeatOfRepeat => "multiple repeat"
  | .repeatBounds => "min repeat greater than max repeat"
  | .tooManyTimes => "the repetition number is too large"
  | .badRange lo hi => "bad character range " ++ lo ++ "-" ++ hi
  | .badEscape t => "bad escape " ++ t
  | .cutEscape t => "incomplete escape " ++ t
  | .largeOctal t => "octal escape value " ++ t ++ " outside of range 0-0o377"
  | .endingBackslash => "bad escape (end of pattern)"
  | .noSuchGroup n => "invalid group reference " ++ toString n
  | .groupStillOpen => "cannot refer to an open group"
  | .groupOfSameLook => "cannot refer to group defined in the same lookbehind subpattern"
  | .groupZero => "bad group number"
  | .unknownGroup m => "unknown extension ?" ++ m
  | .endInGroup => "unexpected end of pattern"
  | .missing what => "missing " ++ what
  | .openName c => "missing " ++ String.singleton c ++ ", unterminated name"
  | .badName n => "bad character in group name " ++ quoted n
  | .unknownName n => "unknown group name " ++ quoted n
  | .nameTaken n number earlier =>
    "redefinition of group name " ++ quoted n ++ " as group " ++ toString number ++
      "; was group " ++ toString earlier
  | .unknownCharacter n => "undefined character name " ++ quoted n
  | .thirdBranch => "conditional backref with more than two branches"
  | .lateFlags => "global flags not at the start of the expression"
  | .unknownFlag => "unknown flag"
  | .badFlags reason => "bad inline flags: " ++ reason
  | .twoAlphabets => "ASCII and UNICODE flags are incompatible"
  | .lookOfManyWidths => "look-behind requires fixed-width pattern"
  | .lookTooFar => "looks too much behind"

/-- A mistake and the number of characters before its place, if it has one. -/
structure Misread where
  mistake : Mistake
  position : Option Nat
deriving DecidableEq, Repr

/-- The message for a mistake in a notation; a notation of several lines names
line and column too. -/
def Misread.message (e : Misread) (written : String) : String :=
  match e.position with
  | none => e.mistake.text
  | some position =>
    let cs := written.toList
    let here := e.mistake.text ++ " at position " ++ toString position
    if cs.contains '\n' then
      let front := cs.take position
      let line := front.count '\n' + 1
      let column := (front.reverse.takeWhile (· != '\n')).length + 1
      here ++ " (line " ++ toString line ++ ", column " ++ toString column ++ ")"
    else here

/-! ## Tokens -/

/-- A character of a notation, or a backslash with the character after it. -/
structure Token where
  position : Nat
  escaped : Bool
  char : Char
deriving DecidableEq, Repr

namespace Token

/-- The notation of a token. -/
def text (t : Token) : String :=
  if t.escaped then String.ofList ['\\', t.char] else String.singleton t.char

/-- The number of characters of a token. -/
def size (t : Token) : Nat := if t.escaped then 2 else 1

/-- Whether the token is a character by itself. -/
def isPlain (t : Token) (c : Char) : Bool := !t.escaped && t.char == c

/-- Whether the token is a character of a kind by itself. -/
def isOf (t : Token) (kind : Char → Bool) : Bool := !t.escaped && kind t.char

/-- The tokens of a notation from a position on, and whether a backslash is
left over at its end. -/
def split (position : Nat) : List Char → List Token × Bool
  | [] => ([], false)
  | ['\\'] => ([], true)
  | '\\' :: c :: rest =>
    let (ts, cut) := split (position + 2) rest
    (⟨position, true, c⟩ :: ts, cut)
  | c :: rest =>
    let (ts, cut) := split (position + 1) rest
    (⟨position, false, c⟩ :: ts, cut)

end Token

/-! ## Reading -/

/-- The least and the greatest number of characters that a pattern takes, cut
off at `widest`. -/
abbrev Width := Nat × Nat

/-- Where widths are cut off. -/
def widest : Nat := powerOf 2 64

/-- The sum of two widths. -/
def Width.add (a b : Width) : Width := (min (a.1 + b.1) widest, min (a.2 + b.2) widest)

/-- The width of one of two patterns. -/
def Width.or (a b : Width) : Width := (min a.1 b.1, max a.2 b.2)

/-- The width of a repeat. -/
def Width.times (a : Width) (lo : Nat) (hi : Option Nat) : Width :=
  (min (a.1 * lo) widest,
    match hi with
    | some n => min (a.2 * n) widest
    | none => if a.2 = 0 then 0 else widest)

/-- The flags in force, by their letters. -/
abbrev Flags := List Char

/-- How characters compare under flags. -/
def lettersOf (flags : Flags) : Letters := ⟨flags.contains 'i', flags.contains 'a'⟩

/-- What is known while a notation is read. -/
structure Reading where
  /-- The tokens not read yet. -/
  tokens : List Token
  /-- The number of characters of the notation. -/
  size : Nat
  /-- Whether a backslash is left over at the end. -/
  cut : Bool
  /-- The flags of the whole notation. -/
  flags : Flags := []
  /-- The widths of the groups, those still open without one. -/
  groups : Array (Option Width) := #[]
  /-- The numbers of the groups with a name. -/
  names : List (String × Nat) := []
  /-- The number of groups begun before the look back being read. -/
  lookback : Option Nat := none
  /-- The groups of conditions and where they are first named. -/
  asked : List (Nat × Nat) := []
  /-- What is wrong with a look back, found when all is read. -/
  badLook : Option Mistake := none

/-- Reading with mistakes. -/
abbrev Read := StateT Reading (Except Misread)

/-- Fails at a position. -/
def failAt {α : Type} (position : Nat) (m : Mistake) : Read α := throw ⟨m, some position⟩

/-- The position of the next token. -/
def here : Read Nat := do
  let r ← get
  return match r.tokens with
    | t :: _ => t.position
    | [] => r.size

/-- Fails `back` characters before the next token. -/
def failBack {α : Type} (m : Mistake) (back : Nat) : Read α := do
  failAt ((← here) - back) m

/-- Fails at the next token. -/
def failHere {α : Type} (m : Mistake) : Read α := failBack m 0

/-- The next token. -/
def peek : Read (Option Token) := do return (← get).tokens.head?

/-- Whether the next token is a character by itself. -/
def peekIs (c : Char) : Read Bool := do return (← peek).any (·.isPlain c)

/-- Fails if only a backslash is left. -/
def checkEnd : Read Unit := do
  let r ← get
  if r.tokens.isEmpty ∧ r.cut then failAt (r.size - 1) .endingBackslash

/-- Takes the next token. -/
def take : Read (Option Token) := do
  let r ← get
  match r.tokens with
  | [] => checkEnd; return none
  | t :: rest =>
    set { r with tokens := rest }
    checkEnd
    return some t

/-- Takes the next token if it is a character by itself. -/
def takeIf (c : Char) : Read Bool := do
  if ← peekIs c then
    let _ ← take
    return true
  else return false

/-- Takes up to `n` characters of a kind. -/
def takeSome (kind : Char → Bool) : Nat → Read (List Char)
  | 0 => return []
  | n + 1 => do
    match ← peek with
    | some t =>
      if t.isOf kind then
        let _ ← take
        return t.char :: (← takeSome kind n)
      else return []
    | none => return []

/-- Takes the tokens up to a closing character, at most `fuel` of them: their
notation, which must not be empty. -/
def takeName (closing : Char) (what : String) : Nat → String → Read String
  | 0, acc => return acc
  | fuel + 1, acc => do
    match ← take with
    | none =>
      if acc.isEmpty then failHere (.missing what)
      else failBack (.openName closing) acc.length
    | some t =>
      if t.isPlain closing then
        if acc.isEmpty then failBack (.missing what) 1 else return acc
      else takeName closing what fuel (acc ++ t.text)

/-- The number of tokens not read yet. -/
def remaining : Read Nat := do return (← get).tokens.length

/-! ## Escapes -/

/-- Whether the character is an octal digit. -/
def isOctal (c : Char) : Bool := '0' ≤ c && c ≤ '7'

/-- Whether the character is a hexadecimal digit. -/
def isHex (c : Char) : Bool := (Numeral.hexValue? c).isSome

/-- The classes written by a letter after a backslash. -/
def classOf? : Char → Option CharItem
  | 'd' => some (.digit false)
  | 'D' => some (.digit true)
  | 'w' => some (.word false)
  | 'W' => some (.word true)
  | 's' => some (.blank false)
  | 'S' => some (.blank true)
  | _ => none

/-- The control characters written by a letter after a backslash. -/
def controlOf? : Char → Option Nat
  | 'a' => some 7
  | 'f' => some 12
  | 'n' => some 10
  | 'r' => some 13
  | 't' => some 9
  | 'v' => some 11
  | _ => none

/-- Reads the code of a character written by its number or name after the
token `t`, which holds the backslash and the letter; or the character itself. -/
def readCode (t : Token) : Read Nat := do
  let numbered (width : Nat) : Read Nat := do
    let ds ← takeSome isHex width
    let n := Numeral.ofDigits 16 ds
    if ds.length ≠ width then failAt t.position (.cutEscape (t.text ++ String.ofList ds))
    else if 0x10ffff < n then failAt t.position (.badEscape (t.text ++ String.ofList ds))
    else return n
  match t.char with
  | 'x' => numbered 2
  | 'u' => numbered 4
  | 'U' => numbered 8
  | 'N' => do
    if !(← takeIf '\x7b') then failHere (.missing "\x7b")
    let name ← takeName '\x7d' "character name" ((← remaining) + 1) ""
    match CharName.code? name with
    | some n => return n
    | none => failBack (.unknownCharacter name) (name.length + 4)
  | c =>
    if c.isAlpha then failAt t.position (.badEscape t.text) else return c.toNat

/-- Reads an octal number of up to three digits whose first digit is in `t`. -/
def readOctal (t : Token) : Read Nat := do
  let ds ← takeSome isOctal 2
  let n := Numeral.ofDigits 8 (t.char :: ds)
  if 0o377 < n then failAt t.position (.largeOctal (t.text ++ String.ofList ds))
  else return n

/-- Reads a member of a set: a class, or a character by its code. -/
def readMember (t : Token) : Read CharItem := do
  if !t.escaped then return .one t.char.toNat
  match controlOf? t.char, classOf? t.char with
  | some n, _ => return .one n
  | none, some item => return item
  | none, none =>
    if t.char = 'b' then return .one 8
    else if isOctal t.char then return .one (← readOctal t)
    else if t.char.isDigit then failAt t.position (.badEscape t.text)
    else return .one (← readCode t)

/-- Checks that a group can be referred to from a look back. -/
def checkLookback (number : Nat) : Read Unit := do
  let r ← get
  match r.lookback with
  | none => return ()
  | some begun =>
    if (r.groups[number - 1]?.bind id).isNone then failHere .groupStillOpen
    else if begun < number then failHere .groupOfSameLook

/-- An element of a branch, as far as repeats tell elements apart. -/
inductive Kind where
  | plain
  | anchor
  | repetition
deriving DecidableEq, Repr

/-- An element of a branch. -/
structure Element where
  kind : Kind
  pattern : Pattern
  width : Width

/-- An element that takes one character. -/
def Element.one (p : Pattern) : Element := ⟨.plain, p, (1, 1)⟩

/-- An element that takes nothing. -/
def Element.anchor (p : Pattern) : Element := ⟨.anchor, p, (0, 0)⟩

/-- A reference to a group that is complete; `size` is the length of its
notation. -/
def readReference (letters : Letters) (number size : Nat) : Read Element := do
  match (← get).groups[number - 1]? with
  | some (some w) =>
    checkLookback number
    return ⟨.plain, .same letters number, w⟩
  | some none => failBack .groupStillOpen size
  | none => failBack (.noSuchGroup number) (size - 1)

/-- Reads a digit after a backslash outside of sets: a reference to a group,
or a character by three octal digits. -/
def readNumber (letters : Letters) (t : Token) : Read Element := do
  let more ← takeSome Char.isDigit 1
  let third ← match more with
    | [d] => if isOctal t.char ∧ isOctal d then takeSome isOctal 1 else pure []
    | _ => pure []
  match third with
  | [_] =>
    let ds := t.char :: more ++ third
    let n := Numeral.ofDigits 8 ds
    if 0o377 < n then failAt t.position (.largeOctal (String.ofList ('\\' :: ds)))
    else return .one (.char letters n)
  | _ =>
    readReference letters (Numeral.ofDigits 10 (t.char :: more)) (2 + more.length)

/-- Reads an escape outside of sets. -/
def readEscape (letters : Letters) (t : Token) : Read Element := do
  match t.char with
  | 'A' => return .anchor .textStart
  | 'Z' => return .anchor .textEnd
  | 'b' => return .anchor (.wordEdge letters false)
  | 'B' => return .anchor (.wordEdge letters true)
  | '0' => do
    let ds ← takeSome isOctal 2
    return .one (.char letters (Numeral.ofDigits 8 ds))
  | c =>
    match controlOf? c, classOf? c with
    | some n, _ => return .one (.char letters n)
    | none, some item => return .one (.chars ⟨letters, false, [item]⟩)
    | none, none =>
      if c.isDigit then readNumber letters t
      else return .one (.char letters (← readCode t))

/-! ## Sets -/

/-- Reads the members of a set up to its closing bracket; `start` is the
position of its opening bracket. -/
def readSet (start : Nat) : Nat → List CharItem → Read (List CharItem)
  | 0, _ => failAt start .openSet
  | fuel + 1, acc => do
    match ← take with
    | none => failAt start .openSet
    | some t =>
      if t.isPlain ']' ∧ acc ≠ [] then return acc.reverse
      else
        let item ← readMember t
        if ← takeIf '-' then
          match ← take with
          | none => failAt start .openSet
          | some u =>
            if u.isPlain ']' then return (.one '-'.toNat :: item :: acc).reverse
            else
              let last ← readMember u
              let bad : Read (List CharItem) :=
                failBack (.badRange t.text u.text) (t.size + 1 + u.size)
              match item, last with
              | .one lo, .one hi =>
                if hi < lo then bad else readSet start fuel (.range lo hi :: acc)
              | _, _ => bad
        else readSet start fuel (item :: acc)

/-! ## Repeats -/

/-- The bound from which on a number of times is refused. -/
def mostTimes : Nat := 4294967295

/-- A number of times, if digits are there to write one. -/
def readTimes (ds : List Char) : Read (Option Nat) := do
  if ds.isEmpty then return none
  let n := Numeral.ofDigits 10 ds
  if mostTimes ≤ n then throw ⟨.tooManyTimes, none⟩ else return some n

/-- Reads the bounds of a repeat after its first token; nothing if a brace
there stands for itself. -/
def readBounds (t : Token) : Read (Option (Nat × Option Nat)) := do
  match t.char with
  | '?' => return some (0, some 1)
  | '*' => return some (0, none)
  | '+' => return some (1, none)
  | _ =>
    if ← peekIs '\x7d' then return none
    let saved ← get
    let start ← here
    let n ← remaining
    let lo ← takeSome Char.isDigit n
    let hi ← if ← takeIf ',' then takeSome Char.isDigit n else pure lo
    if !(← takeIf '\x7d') then
      set saved
      return none
    let least ← readTimes lo
    let most ← readTimes hi
    if most.any (· < least.getD 0) then failAt start .repeatBounds
    return some (least.getD 0, most)

/-- Reads the mark after a repeat that says how it tries. -/
def readManner : Read Manner := do
  if ← takeIf '?' then return .modest
  else if ← takeIf '+' then return .firm
  else return .greedy

/-- The elements with the last one repeated; `acc` holds them, last first. -/
def repeatLast (t : Token) (lo : Nat) (hi : Option Nat) (acc : List Element) :
    Read (List Element) := do
  match acc with
  | [] => failAt t.position .nothingToRepeat
  | x :: rest =>
    match x.kind with
    | .anchor => failAt t.position .nothingToRepeat
    | .repetition => failAt t.position .repeatOfRepeat
    | .plain =>
      let manner ← readManner
      return ⟨.repetition, .loop manner lo hi x.pattern, x.width.times lo hi⟩ :: rest

/-! ## Flags -/

/-- The letters of flags. -/
def flagLetters : List Char := ['i', 'L', 'm', 's', 'x', 'a', 't', 'u']

/-- The flags that choose an alphabet, of which one can be in force. -/
def alphabets : List Char := ['a', 'u', 'L']

/-- Fails at a token that is no flag. -/
def failFlag {α : Type} (t : Token) (expected : String) : Read α :=
  failBack (if t.isOf fun c => CharClass.isWord c && !CharClass.isDigit c && c != '_' then
    .unknownFlag else .missing expected) t.size

/-- Reads the flags to be set, the first of which is `c`: the flags and the
character that ends them. -/
def readFlagsOn : Nat → Char → Flags → Read (Flags × Char)
  | 0, c, acc => return (acc, c)
  | fuel + 1, c, acc => do
    if c = 'L' then failHere (.badFlags "cannot use 'L' flag with a str pattern")
    if alphabets.contains c ∧ acc.any (fun d => alphabets.contains d && d != c) then
      failHere (.badFlags "flags 'a', 'u' and 'L' are incompatible")
    let acc := c :: acc
    match ← take with
    | none => failHere (.missing "-, : or )")
    | some t =>
      if t.isOf [')', '-', ':'].contains then return (acc, t.char)
      else if t.isOf flagLetters.contains then readFlagsOn fuel t.char acc
      else failFlag t "-, : or )"

/-- Reads the flags to be cleared up to a colon; `expected` is what has to
come next. -/
def readFlagsOff (expected : String) : Nat → Flags → Read Flags
  | 0, acc => return acc
  | fuel + 1, acc => do
    match ← take with
    | none => failHere (.missing expected)
    | some t =>
      if t.isPlain ':' ∧ acc ≠ [] then return acc
      else if t.isOf flagLetters.contains then
        if alphabets.contains t.char then
          failHere (.badFlags "cannot turn off flags 'a', 'u' and 'L'")
        readFlagsOff ":" fuel (t.char :: acc)
      else failFlag t expected

/-- Reads flags, of which the first character is `c`: those to be set and those
to be cleared for a group, or nothing if they were set for the whole
notation. -/
def readFlags (c : Char) : Read (Option (Flags × Flags)) := do
  let n ← remaining
  let (on, last) ← if c = '-' then pure ([], '-') else readFlagsOn (n + 2) c []
  if last = ')' then
    modify fun r => { r with flags := on ++ r.flags }
    return none
  if on.contains 't' then failBack (.badFlags "cannot turn on global flag") 1
  let off ← if last = '-' then readFlagsOff "flag" (n + 2) [] else pure []
  if off.contains 't' then failBack (.badFlags "cannot turn off global flag") 1
  if on.any off.contains then failBack (.badFlags "flag turned on and off") 1
  return some (on, off)

/-- The flags in force inside a group that sets some and clears others. -/
def changed (flags on off : Flags) : Flags :=
  let kept := if on.any alphabets.contains then flags.filter (!alphabets.contains ·) else flags
  (on ++ kept).filter (!off.contains ·)

/-! ## Groups -/

/-- Whether a text is a name: letters, digits and underscores, no digit
first. -/
def isName (name : String) : Bool :=
  match name.toList with
  | [] => false
  | c :: cs => CharClass.isWord c && !CharClass.isDigit c && cs.all CharClass.isWord

/-- Reads the name of a group. -/
def readName (closing : Char) : Read String := do
  let name ← takeName closing "group name" ((← remaining) + 1) ""
  if isName name then return name else failBack (.badName name) (name.length + 1)

/-- Reads a reference to a group by its name. -/
def readNamedReference (letters : Letters) : Read Element := do
  let name ← readName ')'
  match (← get).names.lookup name with
  | none => failBack (.unknownName name) (name.length + 1)
  | some n => readReference letters n (name.length + 1)

/-- Reads the group that a condition is about. -/
def readAsked : Read Nat := do
  let name ← takeName ')' "group name" ((← remaining) + 1) ""
  let back := name.length + 1
  if isName name then
    match (← get).names.lookup name with
    | none => failBack (.unknownName name) back
    | some n => checkLookback n; return n
  else
    match Numeral.int? name.toList with
    | some (.ofNat n) =>
      if n = 0 then failBack .groupZero back
      if powerOf 2 31 - 1 ≤ n then failBack (.noSuchGroup n) back
      let position := (← here) - back
      modify fun r =>
        if (r.asked.lookup n).isSome then r else { r with asked := r.asked ++ [(n, position)] }
      checkLookback n
      return n
    | _ => failBack (.badName name) back

/-- Begins a group: its number. -/
def openGroup (name : Option String) : Read Nat := do
  let r ← get
  let number := r.groups.size + 1
  match name with
  | none => set { r with groups := r.groups.push none }
  | some name =>
    match r.names.lookup name with
    | some earlier => failBack (.nameTaken name number earlier) (name.length + 1)
    | none =>
      set { r with groups := r.groups.push none, names := (name, number) :: r.names }
  return number

/-- Ends a group. -/
def closeGroup (number : Nat) (w : Width) : Read Unit :=
  modify fun r => { r with groups := r.groups.setIfInBounds (number - 1) (some w) }

/-- Notes what is wrong with a look back of some width. -/
def checkLook (w : Width) : Read Unit :=
  let bad : Option Mistake :=
    if mostTimes < w.1 then some .lookTooFar
    else if w.1 ≠ w.2 then some .lookOfManyWidths
    else none
  modify fun r => { r with badLook := r.badLook.orElse fun _ => bad }

/-- What a mark after an opening parenthesis begins. -/
inductive Opening where
  /-- A group whose text is kept. -/
  | kept (number : Nat)
  /-- A group that is kept apart from the others by its flags at most. -/
  | free (on off : Flags)
  | atomic
  | look (back negated : Bool)
  | condition
  /-- A reference, which has been read. -/
  | reference (x : Element)
  | comment
  /-- Flags for the whole notation, which have been read. -/
  | flags

/-- Drops a comment up to its closing parenthesis; `start` is the position of
the opening one. -/
def skipComment (start : Nat) : Nat → Read Unit
  | 0 => return ()
  | fuel + 1 => do
    if (← peek).isNone then failAt start .openComment
    match ← take with
    | some t => if t.isPlain ')' then return () else skipComment start fuel
    | none => return ()

/-- Reads the mark after an opening parenthesis at the position `start`. -/
def readOpening (letters : Letters) (start : Nat) : Read Opening := do
  if !(← takeIf '?') then return .kept (← openGroup none)
  let cut {α : Type} : Read α := failHere .endInGroup
  match ← take with
  | none => cut
  | some t =>
    if t.isPlain ':' then return .free [] []
    else if t.isPlain '>' then return .atomic
    else if t.isPlain '=' then return .look false false
    else if t.isPlain '!' then return .look false true
    else if t.isPlain '(' then return .condition
    else if t.isPlain '#' then
      skipComment start ((← remaining) + 1)
      return .comment
    else if t.isPlain '<' then
      match ← take with
      | none => cut
      | some u =>
        if u.isPlain '=' then return .look true false
        else if u.isPlain '!' then return .look true true
        else failBack (.unknownGroup ("<" ++ u.text)) (u.size + 2)
    else if t.isPlain 'P' then
      if ← takeIf '<' then
        let name ← readName '>'
        return .kept (← openGroup (some name))
      else if ← takeIf '=' then return .reference (← readNamedReference letters)
      else
        match ← take with
        | none => cut
        | some u => failBack (.unknownGroup ("P" ++ u.text)) (u.size + 2)
    else if t.isOf ('-' :: flagLetters).contains then
      match ← readFlags t.char with
      | none => return .flags
      | some (on, off) => return .free on off
    else failBack (.unknownGroup t.text) (t.size + 1)

/-- Takes the parenthesis that closes the one at the position `start`. -/
def readClosing (start : Nat) : Read Unit := do
  if !(← takeIf ')') then failAt start .openGroup

/-! ## Branches -/

/-- Drops a comment of a spacious notation. -/
def skipLine : Nat → Read Unit
  | 0 => return ()
  | fuel + 1 => do
    match ← take with
    | some t => if t.isPlain '\n' then return () else skipLine fuel
    | none => return ()

/-- The pattern and the width of elements, last first. -/
def sequence (acc : List Element) : Pattern × Width :=
  (seq (acc.reverse.map (·.pattern)), acc.foldr (fun x w => w.add x.width) (0, 0))

/-- Whether flags let blanks and comments stand in a notation. -/
def isSpacious (flags : Flags) : Bool := flags.contains 'x'

/-- The blanks of a spacious notation. -/
def isSpace (c : Char) : Bool := c == ' ' || (9 ≤ c.toNat && c.toNat ≤ 13)

/-- The characters of the notation that begin a repeat. -/
def beginsRepeat (c : Char) : Bool := ['*', '+', '?', '\x7b'].contains c

/-- Reads an element that holds no other. -/
def readElement (flags : Flags) (t : Token) : Read Element := do
  let letters := lettersOf flags
  if t.escaped then readEscape letters t
  else
    match t.char with
    | '.' =>
      return .one (.chars ⟨letters, true, if flags.contains 's' then [] else [.one 10]⟩)
    | '^' => return .anchor (if flags.contains 'm' then .lineStart else .textStart)
    | '$' => return .anchor (if flags.contains 'm' then .lineEnd else .lastLineEnd)
    | '[' => do
      let negated ← takeIf '^'
      let items ← readSet t.position ((← remaining) + 1) []
      return .one (.chars ⟨letters, negated, items⟩)
    | c => return .one (.char letters c.toNat)

mutual

/-- Reads alternatives up to a closing parenthesis or the end.  Those of the
whole notation are read under its own flags. -/
def readAlternatives (whole : Bool) : Nat → Bool → Flags → Read (Pattern × Width)
  | 0, _, _ => return (.blank, (0, 0))
  | fuel + 1, first, flags => do
    let (p, w) ← readBranch whole fuel first flags []
    if ← takeIf '|' then
      let r ← get
      let flags := if whole then r.flags else flags
      let (q, v) ← readAlternatives whole fuel false flags
      return (.alt p q, w.or v)
    else return (p, w)

/-- Reads a branch; `acc` holds the elements read so far, last first.  Flags
for the whole notation can stand at its very start only. -/
def readBranch (whole : Bool) : Nat → Bool → Flags → List Element → Read (Pattern × Width)
  | 0, _, _, acc => return sequence acc
  | fuel + 1, first, flags, acc => do
    match ← peek with
    | none => return sequence acc
    | some t =>
      if t.isPlain '|' ∨ t.isPlain ')' then return sequence acc
      let _ ← take
      if isSpacious flags ∧ t.isOf isSpace then readBranch whole fuel first flags acc
      else if isSpacious flags ∧ t.isPlain '#' then
        skipLine ((← remaining) + 1)
        readBranch whole fuel first flags acc
      else if t.isOf beginsRepeat then
        match ← readBounds t with
        | none => readBranch whole fuel first flags ((← readElement flags t) :: acc)
        | some (lo, hi) => readBranch whole fuel first flags (← repeatLast t lo hi acc)
      else if t.isPlain '(' then
        match ← readOpening (lettersOf flags) t.position with
        | .comment => readBranch whole fuel first flags acc
        | .flags =>
          if !first ∨ acc ≠ [] then failAt t.position .lateFlags
          readBranch whole fuel first (← get).flags acc
        | .reference x => readBranch whole fuel first flags (x :: acc)
        | opening =>
          let x ← readGroup fuel flags t.position opening
          readBranch whole fuel first flags (x :: acc)
      else readBranch whole fuel first flags ((← readElement flags t) :: acc)

/-- Reads a group after its mark. -/
def readGroup : Nat → Flags → Nat → Opening → Read Element
  | 0, _, _, _ => return .anchor .blank
  | fuel + 1, flags, start, opening => do
    match opening with
    | .look back negated =>
      let outer := (← get).lookback
      if back ∧ outer.isNone then
        modify fun r => { r with lookback := some r.groups.size }
      let (p, w) ← readAlternatives false fuel false flags
      if back then
        modify fun r => { r with lookback := outer }
        checkLook w
      readClosing start
      return ⟨.plain, .look (if back then some w.1 else none) negated p, (0, 0)⟩
    | .condition =>
      let n ← readAsked
      let (yes, w) ← readBranch false fuel false flags []
      let (no, v) ← if ← takeIf '|' then
          let r ← readBranch false fuel false flags []
          if ← peekIs '|' then failHere .thirdBranch
          pure r
        else pure (.blank, (0, 0))
      readClosing start
      return ⟨.plain, .given n yes no, w.or v⟩
    | .free on off =>
      let (p, w) ← readAlternatives false fuel false (changed flags on off)
      readClosing start
      return ⟨.plain, p, w⟩
    | .atomic =>
      let (p, w) ← readAlternatives false fuel false flags
      readClosing start
      return ⟨.plain, .atomic p, w⟩
    | .kept n =>
      let (p, w) ← readAlternatives false fuel false flags
      readClosing start
      closeGroup n w
      return ⟨.plain, .group n p, w⟩
    | _ => return .anchor .blank

end

/-- Reads the whole notation. -/
def readWhole (fuel : Nat) : Read Pattern := do
  checkEnd
  let (p, _) ← readAlternatives true fuel true []
  let r ← get
  if r.flags.contains 'a' ∧ r.flags.contains 'u' then throw ⟨.twoAlphabets, none⟩
  if r.tokens ≠ [] then failHere .closedNothing
  match r.asked.find? fun (n, _) => r.groups.size < n with
  | some (n, position) => failAt position (.noSuchGroup n)
  | none =>
    match r.badLook with
    | some m => throw ⟨m, none⟩
    | none => return p

/-- Reads a notation. -/
def ofText (written : String) : Except Misread Pattern :=
  let cs := written.toList
  let (tokens, cut) := Token.split 0 cs
  let reading : Reading :=
    { tokens, size := cs.length, cut }
  (readWhole (3 * cs.length + 3)).run' reading

end Pattern
end ApiTree
