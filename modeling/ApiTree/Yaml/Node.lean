import ApiTree.Yaml.Lexer
import ApiTree.Yaml.Scalar

/-!
# ApiTree.Yaml.Node

The nodes of a YAML document: scalars, sequences and mappings with their tags.
A stream holds one document at most.
-/

namespace ApiTree
namespace Yaml

/-- A node. -/
inductive Node where
  | scalar (tag : Tag) (text : String)
  | list (tag : Tag) (items : List Node)
  | map (tag : Tag) (entries : List (Node × Node))
deriving Repr

instance : Inhabited Node := ⟨.scalar .null ""⟩

namespace Node

/-- The tag of a node. -/
def tag : Node → Tag
  | .scalar t _ => t
  | .list t _ => t
  | .map t _ => t

/-- The word for the kind of a node. -/
def kind : Node → String
  | .scalar .. => "scalar"
  | .list .. => "sequence"
  | .map .. => "mapping"

/-- The scalar where nothing is written. -/
def empty : Node := .scalar .null ""

end Node

/-! ## Reading -/

/-- How far the tokens of a stream have been read. -/
structure Stream where
  tokens : List Token
  /-- The mistake after the tokens. -/
  mistake : Option Misread
  /-- The beginnings of tags by their handles. -/
  handles : List (String × String) := []
  /-- The nodes with a name. -/
  anchors : List (String × Node) := []

/-- Reading with mistakes. -/
abbrev Compose := StateT Stream (Except Misread)

/-- The next token. -/
def peekToken : Compose Token := do
  let s ← get
  match s.tokens, s.mistake with
  | t :: _, _ => return t
  | [], some e => throw e
  | [], none => return .streamEnd

/-- Drops the next token. -/
def dropToken : Compose Unit := modify fun s => { s with tokens := s.tokens.tail }

/-- Drops the next token if it is `t`. -/
def takeToken (t : Token) : Compose Bool := do
  if (← peekToken) = t then
    dropToken
    return true
  else return false

/-- Reads the anchor before a node. -/
def takeAnchor : Compose (Option String) := do
  match ← peekToken with
  | .anchor name => dropToken; return some name
  | _ => return none

/-- Reads the tag before a node. -/
def takeTag : Compose (Option WrittenTag) := do
  match ← peekToken with
  | .tag t => dropToken; return some t
  | _ => return none

/-- Reads the anchor and the tag before a node, in any order. -/
def takeProperties : Compose (Option String × Option WrittenTag) := do
  match ← takeAnchor with
  | some a => return (some a, ← takeTag)
  | none =>
    match ← takeTag with
    | some t => return (← takeAnchor, some t)
    | none => return (none, none)

/-- The full form of a tag; nothing for the tag that says nothing. -/
def fullTag (t : Option WrittenTag) : Compose (Option String) := do
  match t with
  | none => return none
  | some ⟨none, suffix⟩ => return some suffix
  | some ⟨some handle, suffix⟩ =>
    match (← get).handles.lookup handle with
    | some start => return some (start ++ suffix)
    | none => throw (.parsing "a node")

/-- Gives a node a name. -/
def setAnchor (anchor : Option String) (node : Node) : Compose Unit :=
  modify fun s => { s with anchors := (anchor.toList.map (·, node)) ++ s.anchors }

/-- Gives a node that has just begun a name, which must be new. -/
def newAnchor (anchor : Option String) (node : Node) : Compose Unit := do
  if let some name := anchor then
    if ((← get).anchors.lookup name).isSome then throw (.anchorTwice name)
  setAnchor anchor node

/-- The tag of a collection: the usual one if none is written. -/
def tagOr (usual : Tag) : Option String → Tag
  | none | some "!" => usual
  | some t => .ofText t

/-- The tag of a scalar. -/
def scalarTag (tag : Option String) (text : String) (plain : Bool) : Tag :=
  match tag with
  | some "!" => plainTag text
  | some t => .ofText t
  | none => if plain then plainTag text else .text

/-- Whether one of several tokens is next. -/
def peekOf (ts : List Token) : Compose Bool := do return ts.contains (← peekToken)

mutual

/-- Reads a node; in a block it can be a block collection, and where
`loose` holds a sequence that is not further in than what is around it. -/
def readNode : Nat → Bool → Bool → Compose Node
  | 0, _, _ => return .empty
  | fuel + 1, block, loose => do
    match ← peekToken with
    | .alias name =>
      dropToken
      match (← get).anchors.lookup name with
      | some node => return node
      | none => throw (.unknownAlias name)
    | _ =>
      let (anchor, written) ← takeProperties
      let tag ← fullTag written
      let named (read : Compose Node) (start : Node) : Compose Node := do
        newAnchor anchor start
        let node ← read
        setAnchor anchor node
        return node
      let list (read : Compose (List Node)) : Compose Node :=
        named (do return .list (tagOr .list tag) (← read)) (.list .list [])
      let map (read : Compose (List (Node × Node))) : Compose Node :=
        named (do return .map (tagOr .map tag) (← read)) (.map .map [])
      match ← peekToken with
      | .blockEntry =>
        if loose then list (readLoose fuel)
        else readMissing block anchor tag
      | .scalar text plain =>
        dropToken
        let node := Node.scalar (scalarTag tag text plain) text
        named (return node) node
      | .flowSequenceStart => list (do dropToken; readFlowItems fuel true)
      | .flowMappingStart => map (do dropToken; readFlowEntries fuel true)
      | .blockSequenceStart =>
        if block then list (do dropToken; readItems fuel) else readMissing block anchor tag
      | .blockMappingStart =>
        if block then map (do dropToken; readEntries fuel) else readMissing block anchor tag
      | _ => readMissing block anchor tag
where
  /-- The node where only an anchor or a tag is written. -/
  readMissing (block : Bool) (anchor : Option String) (tag : Option String) :
      Compose Node := do
    if anchor.isNone ∧ tag.isNone then
      throw (.parsing (if block then "a block node" else "a flow node"))
    let node := Node.scalar (scalarTag tag "" true) ""
    newAnchor anchor node
    return node

/-- Reads the items of a block sequence and its end. -/
def readItems : Nat → Compose (List Node)
  | 0 => return []
  | fuel + 1 => do
    if ← takeToken .blockEntry then
      let node ← if ← peekOf [.blockEntry, .blockEnd] then pure .empty
        else readNode fuel true false
      return node :: (← readItems fuel)
    else if ← takeToken .blockEnd then return []
    else throw (.parsing "a block collection")

/-- Reads the items of a sequence that is no block of its own. -/
def readLoose : Nat → Compose (List Node)
  | 0 => return []
  | fuel + 1 => do
    if ← takeToken .blockEntry then
      let node ← if ← peekOf [.blockEntry, .key, .value, .blockEnd] then pure .empty
        else readNode fuel true false
      return node :: (← readLoose fuel)
    else return []

/-- Reads the entries of a block mapping and its end. -/
def readEntries : Nat → Compose (List (Node × Node))
  | 0 => return []
  | fuel + 1 => do
    if ← takeToken .key then
      let key ← if ← peekOf [.key, .value, .blockEnd] then pure .empty
        else readNode fuel true true
      let value ← readBlockValue fuel
      return (key, value) :: (← readEntries fuel)
    else if ← takeToken .blockEnd then return []
    else throw (.parsing "a block mapping")

/-- Reads the value of an entry of a block mapping. -/
def readBlockValue : Nat → Compose Node
  | 0 => return .empty
  | fuel + 1 => do
    if ← takeToken .value then
      if ← peekOf [.key, .value, .blockEnd] then return .empty
      else readNode fuel true true
    else return .empty

/-- Reads the items of a flow sequence and its end. -/
def readFlowItems : Nat → Bool → Compose (List Node)
  | 0, _ => return []
  | fuel + 1, first => do
    if ← takeToken .flowSequenceEnd then return []
    if !first then
      if !(← takeToken .flowEntry) then throw (.parsing "a flow sequence")
    if ← takeToken .key then
      let key ← if ← peekOf [.value, .flowEntry, .flowSequenceEnd] then pure .empty
        else readNode fuel false false
      let value ← readFlowValue fuel .flowSequenceEnd
      return .map .map [(key, value)] :: (← readFlowItems fuel false)
    else if ← takeToken .flowSequenceEnd then return []
    else
      let node ← readNode fuel false false
      return node :: (← readFlowItems fuel false)

/-- Reads the entries of a flow mapping and its end. -/
def readFlowEntries : Nat → Bool → Compose (List (Node × Node))
  | 0, _ => return []
  | fuel + 1, first => do
    if ← takeToken .flowMappingEnd then return []
    if !first then
      if !(← takeToken .flowEntry) then throw (.parsing "a flow mapping")
    if ← takeToken .key then
      let key ← if ← peekOf [.value, .flowEntry, .flowMappingEnd] then pure .empty
        else readNode fuel false false
      let value ← readFlowValue fuel .flowMappingEnd
      return (key, value) :: (← readFlowEntries fuel false)
    else if ← takeToken .flowMappingEnd then return []
    else
      let key ← readNode fuel false false
      return (key, .empty) :: (← readFlowEntries fuel false)

/-- Reads the value of an entry in a flow collection that ends with `closing`. -/
def readFlowValue : Nat → Token → Compose Node
  | 0, _ => return .empty
  | fuel + 1, closing => do
    if ← takeToken .value then
      if ← peekOf [.flowEntry, closing] then return .empty
      else readNode fuel false false
    else return .empty

end

/-! ## Documents -/

/-- The handles that every document knows. -/
def usualHandles : List (String × String) := [("!", "!"), ("!!", Tag.space)]

/-- Reads the directives of a document. -/
def readDirectives : Nat → Bool → List (String × String) → Compose Unit
  | 0, _, _ => return ()
  | fuel + 1, versioned, handles => do
    match ← peekToken with
    | .directive (.version major _) =>
      dropToken
      if versioned then throw .twoVersions
      if major ≠ 1 then throw .wrongVersion
      readDirectives fuel true handles
    | .directive (.tag handle value) =>
      dropToken
      if (handles.lookup handle).isSome then throw (.handleTwice handle)
      readDirectives fuel versioned ((handle, value) :: handles)
    | .directive .other =>
      dropToken
      readDirectives fuel versioned handles
    | _ => modify fun s => { s with handles := handles ++ usualHandles }

/-- Drops the marks of a document's end. -/
def dropEnds : Nat → Compose Unit
  | 0 => return ()
  | fuel + 1 => do if ← takeToken .documentEnd then dropEnds fuel

/-- Reads what begins a document that is marked as one: whether there is one. -/
def readStart (fuel : Nat) : Compose Bool := do
  dropEnds fuel
  if ← peekOf [.streamEnd] then return false
  readDirectives fuel false []
  if ← takeToken .documentStart then return true
  else throw (.documentStart (← peekToken).name)

/-- Whether the next token is a directive. -/
def peekDirective : Compose Bool := do
  match ← peekToken with
  | .directive _ => return true
  | _ => return false

/-- Reads the node of a document after the mark of its start. -/
def readContent (fuel : Nat) : Compose Node := do
  if (← peekDirective) || (← peekOf [.documentStart, .documentEnd, .streamEnd]) then
    return .empty
  else readNode fuel true false

/-- Reads the node of a document, if there is one. -/
def readFirst (fuel : Nat) : Compose (Option Node) := do
  if (← peekDirective) || (← peekOf [.documentStart, .streamEnd]) then
    if ← readStart fuel then return some (← readContent fuel) else return none
  else
    modify fun s => { s with handles := usualHandles }
    return some (← readNode fuel true false)

/-- Reads the node of the only document of a stream, if there is one. -/
def readDocument (fuel : Nat) : Compose (Option Node) := do
  match ← readFirst fuel with
  | none => return none
  | some node =>
    let _ ← takeToken .documentEnd
    if ← readStart fuel then throw .severalDocuments
    return some node

/-- The node of the only document of a text, if there is one. -/
def Node.ofText? (text : String) : Except Misread (Option Node) :=
  let (tokens, mistake) := tokensOf text
  (readDocument (4 * tokens.length + 4)).run' { tokens, mistake }

end Yaml
end ApiTree
