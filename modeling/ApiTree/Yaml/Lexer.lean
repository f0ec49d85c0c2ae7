import ApiTree.Number.Numeral
import ApiTree.Yaml.Misread
import ApiTree.Yaml.Token

/-!
# ApiTree.Yaml.Lexer

The tokens of a YAML text.  Indentation is turned into the beginnings and ends
of blocks.  A scalar or a bracket may turn out to be a key only when the colon
after it is reached; until then it is remembered as a possible key, and the
tokens from it on are not final.
-/

namespace ApiTree
namespace Yaml

/-! ## Characters -/

/-- Whether a character ends a line. -/
def isBreak (c : Char) : Bool := "\n\r\u0085\u2028\u2029".toList.contains c

/-- Whether a character is a blank inside a line. -/
def isBlank (c : Char) : Bool := c == ' ' || c == '\t'

/-- Whether a line is over where the next character is `c`. -/
def endsLine (c : Option Char) : Bool := c.all isBreak

/-- Whether a word is over where the next character is `c`. -/
def endsWord (c : Option Char) : Bool := c.all fun c => isBreak c || isBlank c

/-- Whether a word is over, a tab not counting, where the next character is
`c`. -/
def endsSpaced (c : Option Char) : Bool := c.all fun c => isBreak c || c == ' '

/-- The brackets and the comma of flow collections. -/
def isFlowMark (c : Char) : Bool := ",[]\x7b\x7d".toList.contains c

/-- The characters of names. -/
def isNameChar (c : Char) : Bool := c.isAlphanum || c == '-' || c == '_'

/-- The characters of tags, the percent sign apart. -/
def isTagChar (c : Char) : Bool :=
  c.isAlphanum || "-;/?:@&=+$,_.!~*'()[]".toList.contains c

/-- Whether a character can be part of a document. -/
def isAcceptable (c : Char) : Bool :=
  let n := c.toNat
  n == 9 || n == 10 || n == 13 || (0x20 ≤ n && n ≤ 0x7e) || n == 0x85 ||
    (0xa0 ≤ n && n ≤ 0xfffd) || 0x10000 ≤ n

/-! ## The state of the lexer -/

/-- Something that may turn out to be a key. -/
structure PossibleKey where
  /-- The number of tokens before it. -/
  token : Nat
  /-- Whether it has to be a key. -/
  required : Bool
  index : Nat
  line : Nat
  column : Nat

/-- How far a text has been read. -/
structure Lexer where
  /-- The characters not read yet. -/
  rest : List Char
  index : Nat := 0
  line : Nat := 0
  column : Nat := 0
  /-- The number of open brackets. -/
  flow : Nat := 0
  /-- The indentation of the block being read. -/
  indent : Int := -1
  /-- The indentations of the blocks around it. -/
  outer : List Int := []
  /-- Whether a key can begin here. -/
  keyAllowed : Bool := true
  /-- The possible keys by the number of brackets around them. -/
  keys : List (Nat × PossibleKey) := []
  /-- The tokens read so far. -/
  tokens : Array Token := #[]

/-- Reading with mistakes. -/
abbrev Lex := StateT Lexer (Except Misread)

namespace Lexer

/-- The state after one more character. -/
def step (s : Lexer) : Lexer :=
  match s.rest with
  | [] => s
  | c :: rest =>
    let s := { s with rest, index := s.index + 1 }
    if isBreak c && !(c == '\r' && rest.head? == some '\n') then
      { s with line := s.line + 1, column := 0 }
    else if c == '\ufeff' then s
    else { s with column := s.column + 1 }

/-- The state after `n` more characters. -/
def steps : Nat → Lexer → Lexer
  | 0, s => s
  | n + 1, s => steps n s.step

end Lexer

/-- The character `n` places ahead. -/
def ahead (n : Nat) : Lex (Option Char) := do return (← get).rest[n]?

/-- The next character. -/
def peek : Lex (Option Char) := ahead 0

/-- Whether the next character is `c`. -/
def peekIs (c : Char) : Lex Bool := do return (← peek) == some c

/-- Drops `n` characters. -/
def forward (n : Nat) : Lex Unit := modify (Lexer.steps n)

/-- Takes the characters of a kind from the front. -/
def takeAll (kind : Char → Bool) : Lex (List Char) := do
  let cs := (← get).rest.takeWhile kind
  forward cs.length
  return cs

/-- Adds a token. -/
def emit (t : Token) : Lex Unit := modify fun s => { s with tokens := s.tokens.push t }

/-- Takes the end of a line, if it is here: the line feed it stands for. -/
def takeBreak : Lex (List Char) := do
  match (← get).rest with
  | '\r' :: '\n' :: _ => forward 2; return ['\n']
  | c :: _ =>
    if c == '\u2028' || c == '\u2029' then forward 1; return [c]
    else if isBreak c then forward 1; return ['\n']
    else return []
  | [] => return []

/-- Whether the mark of a document's start or end is here, with nothing after
it. -/
def atDocumentMark (mark : Char) : Lex Bool := do
  match (← get).rest with
  | a :: b :: c :: rest =>
    return a == mark && b == mark && c == mark && endsWord rest.head?
  | _ => return false

/-- Whether a document starts or ends here. -/
def atDocumentEdge : Lex Bool := do return (← atDocumentMark '-') || (← atDocumentMark '.')

/-! ## Possible keys and indentation -/

/-- Forgets the possible keys that lie on another line or too far back; one that
has to be a key must not be among them. -/
def dropStale : Lex Unit := do
  let s ← get
  let stale (k : PossibleKey) : Bool := k.line != s.line || 1024 < s.index - k.index
  if s.keys.any fun (_, k) => stale k && k.required then throw .simpleKey
  set { s with keys := s.keys.filter fun (_, k) => !stale k }

/-- Forgets the possible key inside the present brackets. -/
def dropKey : Lex Unit := do
  let s ← get
  if (s.keys.lookup s.flow).any (·.required) then throw .simpleKey
  set { s with keys := s.keys.filter (·.1 != s.flow) }

/-- Remembers that the next token may be a key. -/
def saveKey : Lex Unit := do
  let s ← get
  if s.keyAllowed then
    dropKey
    let key : PossibleKey :=
      ⟨s.tokens.size, s.flow == 0 && s.indent == s.column, s.index, s.line, s.column⟩
    modify fun s => { s with keys := (s.flow, key) :: s.keys }

/-- Says whether a key can begin next. -/
def allowKey (allowed : Bool) : Lex Unit := modify fun s => { s with keyAllowed := allowed }

/-- The blocks that end before a column: their number, and the indentations
that are left. -/
def endedBlocks (column : Int) : Int → List Int → Nat × Int × List Int
  | indent, [] => (0, indent, [])
  | indent, o :: os =>
    if column < indent then
      let (n, i, l) := endedBlocks column o os
      (n + 1, i, l)
    else (0, indent, o :: os)

/-- Ends the blocks that are further in than a column. -/
def unwind (column : Int) : Lex Unit := do
  let s ← get
  if s.flow == 0 then
    let (n, indent, outer) := endedBlocks column s.indent s.outer
    set { s with indent, outer, tokens := s.tokens ++ Array.replicate n Token.blockEnd }

/-- Begins a block at a column that is further in than the present one: whether
it is. -/
def addIndent (column : Nat) : Lex Bool := do
  let s ← get
  if s.indent < column then
    set { s with indent := column, outer := s.indent :: s.outer }
    return true
  else return false

/-! ## Blanks and comments -/

/-- Drops what is left of a line. -/
def dropLine : Lex Unit := do
  let _ ← takeAll (!isBreak ·)

/-- Drops blanks, comments and ends of lines; `fuel` bounds the number of
lines.  A new line outside of brackets can begin with a key. -/
def dropSpace : Nat → Lex Unit
  | 0 => return ()
  | fuel + 1 => do
    let _ ← takeAll (· == ' ')
    if ← peekIs '#' then dropLine
    if (← takeBreak).isEmpty then return ()
    if (← get).flow == 0 then allowKey true
    dropSpace fuel

/-- Drops the blanks and a comment at the end of a line that must hold nothing
else. -/
def dropSilent (what : String) : Lex Unit := do
  let _ ← takeAll (· == ' ')
  if ← peekIs '#' then dropLine
  if !endsLine (← peek) then throw (.scanning what)
  let _ ← takeBreak

/-! ## Directives, anchors and tags -/

/-- Reads a number of a version. -/
def readVersionNumber : Lex Nat := do
  let ds ← takeAll Char.isDigit
  if ds.isEmpty then throw (.scanning "a directive")
  return Numeral.ofDigits 10 ds

/-- Reads the handle of a tag. -/
def readHandle (what : String) : Lex String := do
  if !(← peekIs '!') then throw (.scanning what)
  forward 1
  if ← peekIs ' ' then return "!"
  let name ← takeAll isNameChar
  if !(← peekIs '!') then throw (.scanning what)
  forward 1
  return String.ofList ('!' :: name ++ ['!'])

/-- Reads bytes that are each written by two digits after a percent sign. -/
def readBytes (what : String) : Nat → Lex (List UInt8)
  | 0 => return []
  | fuel + 1 => do
    if !(← peekIs '%') then return []
    forward 1
    let ds := Numeral.takeUpTo 2 (fun c => (Numeral.hexValue? c).isSome) (← get).rest
    if ds.length ≠ 2 then throw (.scanning what)
    forward 2
    return (Numeral.ofDigits 16 ds).toUInt8 :: (← readBytes what fuel)

/-- Reads the text of a tag. -/
def readTagText (what : String) : Nat → Lex (List Char)
  | 0 => return []
  | fuel + 1 => do
    let cs ← takeAll isTagChar
    if ← peekIs '%' then
      let bytes ← readBytes what ((← get).rest.length)
      match String.fromUTF8? ⟨bytes.toArray⟩ with
      | none => throw (.scanning what)
      | some s => return cs ++ s.toList ++ (← readTagText what fuel)
    else return cs

/-- Reads the text of a tag, which must not be empty. -/
def readUri (what : String) : Lex String := do
  let cs ← readTagText what ((← get).rest.length + 1)
  if cs.isEmpty then throw (.parsing what)
  return String.ofList cs

/-- Reads a directive. -/
def readDirective : Lex Directive := do
  let what := "a directive"
  forward 1
  let name ← takeAll isNameChar
  if name.isEmpty || !endsSpaced (← peek) then throw (.scanning what)
  let d ← if String.ofList name == "YAML" then
      let _ ← takeAll (· == ' ')
      let major ← readVersionNumber
      if !(← peekIs '.') then throw (.scanning what)
      forward 1
      let minor ← readVersionNumber
      if !endsSpaced (← peek) then throw (.scanning what)
      pure (.version major minor)
    else if String.ofList name == "TAG" then
      let _ ← takeAll (· == ' ')
      let handle ← readHandle what
      if !(← peekIs ' ') then throw (.scanning what)
      let _ ← takeAll (· == ' ')
      let value ← readUri what
      if !endsSpaced (← peek) then throw (.scanning what)
      pure (.tag handle value)
    else
      dropLine
      pure .other
  dropSilent what
  return d

/-- Reads the name of an anchor or an alias after its mark. -/
def readAnchor (what : String) : Lex String := do
  forward 1
  let name ← takeAll isNameChar
  let ends (c : Char) : Bool := isBreak c || isBlank c || "?:,]\x7d%@\x60".toList.contains c
  if name.isEmpty || !(← peek).all ends then throw (.scanning what)
  return String.ofList name

/-- Reads a tag. -/
def readTag : Lex WrittenTag := do
  let what := "a tag"
  let next ← ahead 1
  let t ← if next == some '<' then
      forward 2
      let suffix ← readUri what
      if !(← peekIs '>') then throw (.parsing what)
      forward 1
      pure ⟨none, suffix⟩
    else if endsWord next then
      forward 1
      pure ⟨none, "!"⟩
    else
      let word := (← get).rest.tail.takeWhile fun c => !endsSpaced (some c)
      let handle ← if word.contains '!' then readHandle what else
        forward 1
        pure "!"
      pure ⟨some handle, ← readUri what⟩
  if !endsSpaced (← peek) then throw (.scanning what)
  return t

/-! ## Block scalars -/

/-- What is kept of the ends of lines after a block scalar. -/
inductive Chomping where
  | strip
  | clip
  | keep
deriving DecidableEq, Repr

/-- Reads the mark of a chomping. -/
def readChomping : Lex Chomping := do
  if ← peekIs '+' then forward 1; return .keep
  else if ← peekIs '-' then forward 1; return .strip
  else return .clip

/-- Reads the digit of an indentation. -/
def readIncrement : Lex (Option Nat) := do
  match ← peek with
  | some c =>
    if c.isDigit then
      if c == '0' then throw (.scanning "a block scalar")
      forward 1
      return some (c.toNat - 48)
    else return none
  | none => return none

/-- Drops the blanks up to a column. -/
def dropIndent (column : Nat) : Lex Unit := do
  let s ← get
  let n := ((s.rest.takeWhile (· == ' ')).take (column - s.column)).length
  forward n

/-- Takes empty lines, of which the blanks up to a column are dropped. -/
def takeBreaks (column : Nat) : Nat → Lex (List Char)
  | 0 => return []
  | fuel + 1 => do
    dropIndent column
    let b ← takeBreak
    if b.isEmpty then return [] else return b ++ (← takeBreaks column fuel)

/-- Takes the lines of blanks at the start of a block scalar: the ends of lines
and the furthest column. -/
def takeLeading : Nat → Nat → Lex (List Char × Nat)
  | 0, most => return ([], most)
  | fuel + 1, most => do
    let _ ← takeAll (· == ' ')
    let most := max most (← get).column
    let b ← takeBreak
    if b.isEmpty then return ([], most)
    else
      let (bs, most) ← takeLeading fuel most
      return (b ++ bs, most)

/-- Reads the lines of a block scalar: its text, the end of its last line and
the ends of the empty lines after it. -/
def readBlockLines (folded : Bool) (indent : Nat) :
    Nat → List Char → Lex (List Char × List Char × List Char)
  | 0, breaks => return ([], [], breaks)
  | fuel + 1, breaks => do
    let blank ← peekBlank
    let line ← takeAll (!isBreak ·)
    let ending ← takeBreak
    let after ← takeBreaks indent ((← get).rest.length + 1)
    let s ← get
    if s.column == indent && !s.rest.isEmpty then
      let joint :=
        if folded && ending == ['\n'] && !blank && !(← peekBlank) then
          (if after.isEmpty then [' '] else [])
        else ending
      let (text, ending, left) ← readBlockLines folded indent fuel after
      return (breaks ++ line ++ joint ++ text, ending, left)
    else return (breaks ++ line, ending, after)
where
  /-- Whether the next character is a blank. -/
  peekBlank : Lex Bool := do return (← peek).any isBlank

/-- Reads a block scalar. -/
def readBlockScalar (folded : Bool) : Lex String := do
  let what := "a block scalar"
  forward 1
  let chomping ← readChomping
  let increment ← readIncrement
  let chomping ← if chomping = .clip then readChomping else pure chomping
  if !endsSpaced (← peek) then throw (.scanning what)
  dropSilent what
  let least := ((← get).indent + 1).toNat.max 1
  let n := (← get).rest.length + 1
  let (breaks, indent) ← match increment with
    | none => do
      let (breaks, most) ← takeLeading n 0
      pure (breaks, max least most)
    | some k => do
      let indent := least + k - 1
      pure (← takeBreaks indent n, indent)
  let s ← get
  let (text, ending, left) ←
    if s.column == indent && !s.rest.isEmpty then readBlockLines folded indent n breaks
    else pure ([], [], breaks)
  return String.ofList (text ++ (if chomping = .strip then [] else ending) ++
    (if chomping = .keep then left else []))

/-! ## Quoted scalars -/

/-- The character written by a letter after a backslash. -/
def escaped? : Char → Option Char
  | '0' => some '\x00'
  | 'a' => some '\x07'
  | 'b' => some '\x08'
  | 't' | '\t' => some '\t'
  | 'n' => some '\n'
  | 'v' => some '\x0b'
  | 'f' => some '\x0c'
  | 'r' => some '\r'
  | 'e' => some '\x1b'
  | ' ' => some ' '
  | '"' => some '"'
  | '\\' => some '\\'
  | '/' => some '/'
  | 'N' => some '\u0085'
  | '_' => some '\u00a0'
  | 'L' => some '\u2028'
  | 'P' => some '\u2029'
  | _ => none

/-- The number of digits after a letter that begins the number of a
character. -/
def codeLength? : Char → Option Nat
  | 'x' => some 2
  | 'u' => some 4
  | 'U' => some 8
  | _ => none

/-- Takes the ends of lines inside a quoted scalar, in which no document may
start or end. -/
def takeQuotedBreaks : Nat → Lex (List Char)
  | 0 => return []
  | fuel + 1 => do
    if ← atDocumentEdge then throw (.scanning "a quoted scalar")
    let _ ← takeAll isBlank
    let b ← takeBreak
    if b.isEmpty then return [] else return b ++ (← takeQuotedBreaks fuel)

/-- Reads what follows a backslash. -/
def readEscape : Lex (List Char) := do
  let bad : Lex (List Char) := throw (.scanning "a double-quoted scalar")
  match ← peek with
  | none => bad
  | some c =>
    match escaped? c, codeLength? c with
    | some d, _ => forward 1; return [d]
    | none, some n => do
      forward 1
      let ds := Numeral.takeUpTo n (fun c => (Numeral.hexValue? c).isSome) (← get).rest
      if ds.length ≠ n then bad
      else
        forward n
        let code := Numeral.ofDigits 16 ds
        if 0x10ffff < code then throw .codePoint
        return [Half.charOf code]
    | none, none =>
      if isBreak c then
        let _ ← takeBreak
        takeQuotedBreaks ((← get).rest.length + 1)
      else bad

/-- Reads the blanks inside a quoted scalar, and the ends of lines among them:
one end of a line is a blank, of more the first is left out. -/
def readQuotedSpace : Lex (List Char) := do
  let blanks ← takeAll isBlank
  match ← peek with
  | none => throw (.scanning "a quoted scalar")
  | some c =>
    if isBreak c then
      let first ← takeBreak
      let more ← takeQuotedBreaks ((← get).rest.length + 1)
      return (if first != ['\n'] then first else if more.isEmpty then [' '] else []) ++ more
    else return blanks

/-- Reads a quoted scalar after its opening quote. -/
def readQuoted (double : Bool) : Nat → Lex (List Char)
  | 0 => return []
  | fuel + 1 => do
    let cs ← takeAll fun c => !(isBreak c || isBlank c || "'\"\\".toList.contains c)
    let next ← peek
    if !double && next == some '\'' && (← ahead 1) == some '\'' then
      forward 2
      return cs ++ '\'' :: (← readQuoted double fuel)
    else if next == some (if double then '"' else '\'') then
      forward 1
      return cs
    else
      let more ← match next with
        | some '\\' =>
          forward 1
          if double then readEscape else pure ['\\']
        | some '"' => forward 1; pure ['"']
        | some '\'' => forward 1; pure ['\'']
        | _ => readQuotedSpace
      return cs ++ more ++ (← readQuoted double fuel)

/-! ## Plain scalars -/

/-- Takes the characters of a plain scalar up to a blank or a mark. -/
def plainRun (flow : Bool) : List Char → List Char
  | [] => []
  | c :: rest =>
    let ends := isBreak c || isBlank c ||
      (c == ':' && rest.head?.all fun d => isBreak d || isBlank d || (flow && isFlowMark d)) ||
      (flow && (isFlowMark c || c == '?'))
    if ends then [] else c :: plainRun flow rest

/-- Takes lines of blanks inside a plain scalar: the ends of lines, or nothing
if a document starts or ends there. -/
def takePlainBreaks : Nat → Lex (Option (List Char))
  | 0 => return some []
  | fuel + 1 => do
    if ← atDocumentEdge then return none
    let _ ← takeAll (· == ' ')
    let b ← takeBreak
    if b.isEmpty then return some []
    else return (← takePlainBreaks fuel).map (b ++ ·)

/-- Reads the blanks inside a plain scalar and the ends of lines among them. -/
def readPlainSpace : Lex (List Char) := do
  let blanks ← takeAll (· == ' ')
  let first ← takeBreak
  if first.isEmpty then return blanks
  allowKey true
  match ← takePlainBreaks ((← get).rest.length + 1) with
  | none => return []
  | some more =>
    return (if first != ['\n'] then first else if more.isEmpty then [' '] else []) ++ more

/-- Reads a plain scalar; `space` is what stands before the next part. -/
def readPlain (indent : Int) : Nat → List Char → Lex (List Char)
  | 0, _ => return []
  | fuel + 1, space => do
    let s ← get
    if ← peekIs '#' then return []
    let cs := plainRun (s.flow != 0) s.rest
    if cs.isEmpty then return []
    allowKey false
    forward cs.length
    let next ← readPlainSpace
    let t ← get
    if next.isEmpty || t.rest.head? == some '#' || (t.flow == 0 && t.column < indent) then
      return space ++ cs
    else return space ++ cs ++ (← readPlain indent fuel next)

/-! ## Tokens -/

/-- Begins a block of some kind here, if the column is further in. -/
def beginBlock (t : Token) : Lex Unit := do
  if ← addIndent (← get).column then emit t

/-- Ends all blocks before a mark of the stream. -/
def leaveBlocks : Lex Unit := do
  unwind (-1)
  dropKey
  allowKey false

/-- Reads a mark of one character. -/
def mark (t : Token) : Lex Unit := do
  forward 1
  emit t

/-- Reads a token that may be a key. -/
def keyed (read : Lex Token) : Lex Unit := do
  saveKey
  allowKey false
  emit (← read)

/-- Reads the start of a flow collection. -/
def openFlow (t : Token) : Lex Unit := do
  saveKey
  modify fun s => { s with flow := s.flow + 1 }
  allowKey true
  mark t

/-- Reads the end of a flow collection. -/
def closeFlow (t : Token) : Lex Unit := do
  dropKey
  modify fun s => { s with flow := s.flow - 1 }
  allowKey false
  mark t

/-- Reads the mark of an item of a block sequence. -/
def readEntry : Lex Unit := do
  let s ← get
  if s.flow == 0 then
    if !s.keyAllowed then throw .entryHere
    beginBlock .blockSequenceStart
  allowKey true
  dropKey
  mark .blockEntry

/-- Reads the mark of a key. -/
def readKey : Lex Unit := do
  let s ← get
  if s.flow == 0 then
    if !s.keyAllowed then throw .keyHere
    beginBlock .blockMappingStart
  allowKey (s.flow == 0)
  dropKey
  mark .key

/-- Reads the mark of a value.  A possible key before it is one. -/
def readValue : Lex Unit := do
  let s ← get
  match s.keys.lookup s.flow with
  | some key =>
    let begins ← if s.flow == 0 then addIndent key.column else pure false
    let added := if begins then [Token.blockMappingStart, .key] else [.key]
    modify fun s => { s with
      keys := s.keys.filter (·.1 != s.flow)
      tokens := s.tokens.extract 0 key.token ++ added.toArray ++
        s.tokens.extract key.token s.tokens.size
      keyAllowed := false }
  | none =>
    if s.flow == 0 then
      if !s.keyAllowed then throw .valueHere
      beginBlock .blockMappingStart
    allowKey (s.flow == 0)
    dropKey
  mark .value

/-- Whether a plain scalar can start with a character that is followed by
`next`. -/
def startsPlain (flow : Bool) (c : Char) (next : Option Char) : Bool :=
  !(isBreak c || isBlank c || "-?:,[]\x7b\x7d#&*!|>'\"%@\x60".toList.contains c) ||
    (!endsWord next && (c == '-' || (!flow && (c == '?' || c == ':'))))

/-- Reads a token that begins with the character `c`. -/
def readToken (c : Char) : Lex Unit := do
  let s ← get
  let flow := s.flow != 0
  let next := s.rest.tail.head?
  let alone := endsWord next
  let n := s.rest.length + 1
  if c == '%' && s.column == 0 then
    leaveBlocks
    emit (.directive (← readDirective))
  else if s.column == 0 && (← atDocumentMark '-') then
    leaveBlocks
    forward 3
    emit .documentStart
  else if s.column == 0 && (← atDocumentMark '.') then
    leaveBlocks
    forward 3
    emit .documentEnd
  else if c == '[' then openFlow .flowSequenceStart
  else if c == '\x7b' then openFlow .flowMappingStart
  else if c == ']' then closeFlow .flowSequenceEnd
  else if c == '\x7d' then closeFlow .flowMappingEnd
  else if c == ',' then
    allowKey true
    dropKey
    mark .flowEntry
  else if c == '-' && alone then readEntry
  else if c == '?' && (flow || alone) then readKey
  else if c == ':' && (flow || alone) then readValue
  else if c == '*' then keyed do return .alias (← readAnchor "an alias")
  else if c == '&' then keyed do return .anchor (← readAnchor "an anchor")
  else if c == '!' then keyed do return .tag (← readTag)
  else if (c == '|' || c == '>') && !flow then
    allowKey true
    dropKey
    emit (.scalar (← readBlockScalar (c == '>')) false)
  else if c == '\'' || c == '"' then
    keyed do
      forward 1
      return .scalar (String.ofList (← readQuoted (c == '"') n)) false
  else if startsPlain flow c next then
    keyed do return .scalar (String.ofList (← readPlain (s.indent + 1) n [])) true
  else throw .nextToken

/-- Reads the next tokens; whether the text is over. -/
def readNext : Lex Bool := do
  if (← get).index == 0 && (← peekIs '\ufeff') then forward 1
  dropSpace ((← get).rest.length + 1)
  dropStale
  let s ← get
  unwind s.column
  match s.rest with
  | [] =>
    unwind (-1)
    dropKey
    modify fun s => { s with keyAllowed := false, keys := [] }
    emit .streamEnd
    return true
  | c :: _ =>
    readToken c
    return false

/-- The tokens that are final: those before the first possible key. -/
def Lexer.final (s : Lexer) : List Token :=
  s.tokens.toList.take (s.keys.foldl (fun n (_, k) => min n k.token) s.tokens.size)

/-- Reads tokens to the end of the text or to a mistake.  Tokens that were final
before the mistake stand before it. -/
def lexFrom : Nat → Lexer → List Token × Option Misread
  | 0, s => (s.final, none)
  | fuel + 1, s =>
    match dropStale.run s with
    | .error e => ([], some e)
    | .ok (_, s) =>
      match (do
          let ended ← readNext
          if !ended then dropStale
          return ended : Lex Bool).run s with
      | .error e => (s.final, some e)
      | .ok (true, t) => (t.tokens.toList, none)
      | .ok (false, t) => lexFrom fuel t

/-- The tokens of a text, and the mistake after them if there is one. -/
def tokensOf (text : String) : List Token × Option Misread :=
  let cs := text.toList
  match cs.find? (!isAcceptable ·) with
  | some c => ([], some (.character c.toNat))
  | none => lexFrom (2 * cs.length + 2) { rest := cs }

end Yaml
end ApiTree
