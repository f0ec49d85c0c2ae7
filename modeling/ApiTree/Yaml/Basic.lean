import ApiTree.Table
import ApiTree.Yaml.Node

/-!
# ApiTree.Yaml.Basic

The values of YAML documents.  A mapping takes in the entries of the mappings
that it merges.  What is wrong with the values of a document is found level by
level, the outermost first.
-/

namespace ApiTree

/-- A YAML value. -/
inductive Yaml where
  | scalar (value : Json)
  /-- A date, or a date and a time. -/
  | moment (text : String)
  /-- Bytes, with the text that they encode. -/
  | bytes (text : Option String)
  | list (items : List Yaml)
  /-- Entries under scalar keys. -/
  | map (entries : List (Json × Yaml))
deriving Repr, Inhabited

namespace Yaml

/-- The null value. -/
def null : Yaml := .scalar .null

mutual

/-- The JSON value that a YAML value is.  Bytes count as the text that they encode.
A point in time is no JSON value, and stands as an object of its text; so do bytes
that encode no text. -/
def toJson : Yaml → Json
  | .scalar j => j
  | .moment text => .obj [("moment", .str text)]
  | .bytes (some text) => .str text
  | .bytes none => .obj [("bytes", .null)]
  | .list ys => .arr (toJsonList ys)
  | .map es => .obj (Table.ofList (toJsonEntries es))

/-- The JSON values of items. -/
def toJsonList : List Yaml → List Json
  | [] => []
  | y :: ys => toJson y :: toJsonList ys

/-- The members of entries. -/
def toJsonEntries : List (Json × Yaml) → List (String × Json)
  | [] => []
  | (k, y) :: es => (k.inText, toJson y) :: toJsonEntries es

end

/-! ## Merged mappings -/

namespace Node

/-- Whether a node is a mapping. -/
def isMap : Node → Bool
  | .map .. => true
  | _ => false

mutual

/-- The entries of a mapping with those it merges in front. -/
def entriesOf : Node → List (Node × Node)
  | .map _ es => mergedIn es ++ ownIn es
  | _ => []

/-- The entries that a mapping merges. -/
def mergedIn : List (Node × Node) → List (Node × Node)
  | [] => []
  | (k, v) :: es =>
    (if k.tag = .merge then
      match v with
      | .map t es => entriesOf (.map t es)
      | .list _ ns => mergedFrom ns
      | .scalar .. => []
    else []) ++ mergedIn es

/-- The entries of several mappings, those of the last first. -/
def mergedFrom : List Node → List (Node × Node)
  | [] => []
  | n :: ns => mergedFrom ns ++ entriesOf n

/-- The entries of a mapping itself.  The key that stands for a value is a
text. -/
def ownIn : List (Node × Node) → List (Node × Node)
  | [] => []
  | (k, v) :: es =>
    if k.tag = .merge then ownIn es
    else
      (match k with
        | .scalar .value text => .scalar .text text
        | k => k, v) :: ownIn es

end

mutual

/-- Fails if a mapping merges something that is no mapping. -/
def checkMerges : Node → Except Misread Unit
  | .map _ es => checkMergesIn es
  | _ => .ok ()

/-- Fails if one of some entries merges something that is no mapping. -/
def checkMergesIn : List (Node × Node) → Except Misread Unit
  | [] => .ok ()
  | (k, v) :: es => do
    if k.tag = .merge then
      match v with
      | .map t es => checkMerges (.map t es)
      | .list _ ns => checkMergesFrom ns
      | .scalar .. => throw (.constructing "a mapping")
    checkMergesIn es

/-- Fails if one of several nodes to be merged is no mapping. -/
def checkMergesFrom : List Node → Except Misread Unit
  | [] => .ok ()
  | n :: ns => do
    if !n.isMap then throw (.constructing "a mapping")
    checkMerges n
    checkMergesFrom ns

end

/-- The text of a node that is to be a scalar.  A mapping can hold it under the
key that stands for a value. -/
def scalarText : Nat → Node → Except Misread String
  | _, .scalar _ text => .ok text
  | fuel + 1, .map t es =>
    match es.find? (·.1.tag = .value) with
    | some (_, v) => scalarText fuel v
    | none => .error (.notOfKind "scalar" (Node.map t es).kind)
  | _, n => .error (.notOfKind "scalar" n.kind)

/-- The tags of collections, whose values are made after what is around
them. -/
def isLate (t : Tag) : Bool := [.list, .map, .set, .pairs, .ordered].contains t

/-- The value of a node that is no collection. -/
def scalar? (fuel : Nat) (n : Node) : Except Misread Scalar :=
  match n.tag with
  | .merge | .value | .other _ => .error (.noMeaning n.tag.written)
  | t => do scalarOf t (← scalarText fuel n)

/-- Checks a node as far as it is made together with what is around it. -/
def checkNow (fuel : Nat) (n : Node) : Except Misread Unit := do
  if !isLate n.tag then
    let _ ← scalar? fuel n

/-- Checks a collection as far as its members are not collections themselves;
gives the members that are. -/
def checkMembers (fuel : Nat) (n : Node) : Except Misread (List Node) := do
  match n.tag, n with
  | .list, .list _ ns =>
    ns.forM (checkNow fuel)
    return ns
  | .list, n => throw (.notOfKind "sequence" n.kind)
  | .pairs, .list _ ns => checkPairs "pairs" ns
  | .pairs, _ => throw (.constructing "pairs")
  | .ordered, .list _ ns => checkPairs "an ordered map" ns
  | .ordered, _ => throw (.constructing "an ordered map")
  | .map, .map t es | .set, .map t es =>
    let n := Node.map t es
    n.checkMerges
    let es := n.entriesOf
    es.forM fun (k, v) => do
      checkNow fuel k
      if isLate k.tag then throw (.constructing "a mapping")
      checkNow fuel v
    return es.map (·.2)
  | .map, n | .set, n => throw (.notOfKind "mapping" n.kind)
  | _, _ => return []
where
  /-- Checks the members of a list of mappings of one entry. -/
  checkPairs (what : String) (ns : List Node) : Except Misread (List Node) :=
    return (← ns.mapM fun
      | .map _ [(k, v)] => do
        checkNow fuel k
        checkNow fuel v
        return [k, v]
      | _ => throw (.constructing what)).flatten

/-- Checks collections and then those inside them. -/
def checkLevels (depth : Nat) : Nat → List Node → Except Misread Unit
  | 0, _ => .ok ()
  | fuel + 1, ns =>
    if ns.isEmpty then .ok ()
    else do
      let inner ← ns.mapM fun n => checkMembers depth n
      checkLevels depth fuel inner.flatten

end Node

/-! ## Values -/

/-- The value of a scalar. -/
def ofScalar : Scalar → Yaml
  | .json j => .scalar j
  | .moment text => .moment text
  | .bytes text => .bytes text

/-- The value of a node that has been checked; `fuel` bounds its depth. -/
def ofNode : Nat → Node → Yaml
  | 0, _ => null
  | fuel + 1, n =>
    match n.tag, n with
    | .list, .list _ ns | .pairs, .list _ ns | .ordered, .list _ ns => .list (ns.map (ofNode fuel))
    | .set, n => .list (n.entriesOf.map fun e => ofNode fuel e.1)
    | .map, n => .map (n.entriesOf.map fun (k, v) => ((ofNode fuel k).toJson, ofNode fuel v))
    | _, n =>
      match n.scalar? fuel with
      | .ok s => ofScalar s
      | .error _ => null

/-- Reads a document; a text without one stands for null. -/
def ofText (text : String) : Except Misread Yaml := do
  match ← Node.ofText? text with
  | none => return null
  | some n =>
    let depth := text.length + 2
    Node.checkNow depth n
    Node.checkLevels depth depth [n]
    return ofNode depth n

end Yaml
end ApiTree
