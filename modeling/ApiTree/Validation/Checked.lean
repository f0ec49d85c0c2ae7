import ApiTree.Fault
import ApiTree.Json.Reader
import ApiTree.Number.Numeral

/-!
# ApiTree.Validation.Checked

Validated values.  A check gives a value or everything that is wrong with it:
checks that stand beside each other are all made, and their issues come in
order.
-/

namespace ApiTree

/-- A value, or all that is wrong with it. -/
inductive Checked (α : Type) where
  | good (a : α)
  | bad (issues : List Issue)
deriving Repr, Inhabited

namespace Checked

variable {α β : Type}

instance : Functor Checked where
  map f
    | .good a => .good (f a)
    | .bad is => .bad is

instance : Applicative Checked where
  pure := .good
  seq f x :=
    match f, x () with
    | .good f, .good a => .good (f a)
    | .good _, .bad is => .bad is
    | .bad is, .good _ => .bad is
    | .bad is, .bad js => .bad (is ++ js)

/-- The next check, on a value that passed. -/
def andThen (x : Checked α) (f : α → Checked β) : Checked β :=
  match x with
  | .good a => f a
  | .bad is => .bad is

/-- A single mistake at the value itself. -/
def wrong (kind : String) : Checked α := .bad [⟨[], kind⟩]

/-- The check seen from one level further out. -/
def under (part : String) : Checked α → Checked α
  | .good a => .good a
  | .bad is => .bad (is.map (·.under part))

/-- The value, or the fault of an invalid one. -/
def toExcept : Checked α → Except Fault α
  | .good a => .ok a
  | .bad is => .error (.invalid is)

/-- Checks of all elements of a list. -/
def all : List (Checked α) → Checked (List α)
  | [] => pure []
  | x :: xs => List.cons <$> x <*> all xs

@[simp] theorem map_good (f : α → β) (a : α) : f <$> Checked.good a = .good (f a) := rfl

@[simp] theorem seq_good (f : α → β) (a : α) :
    (Checked.good f <*> Checked.good a : Checked β) = .good (f a) := rfl

@[simp] theorem under_good (part : String) (a : α) :
    (Checked.good a).under part = .good a := rfl

end Checked

namespace Checked

/-! ## JSON values of a known form -/

/-- A text that is made of characters. -/
def whole (s : String) : Checked String :=
  if Half.occursIn s then wrong "string_unicode" else pure s

/-- A text, which may hold halves of characters. -/
def text : Json → Checked String
  | .str s => pure s
  | _ => wrong "string_type"

/-- The words for true and false. -/
def truthWord? (s : String) : Option Bool :=
  let w := s.map Char.toLower
  if ["1", "on", "t", "true", "y", "yes"].contains w then some true
  else if ["0", "off", "f", "false", "n", "no"].contains w then some false
  else none

/-- Whether an integer fits into 64 bits. -/
def isShort (n : Int) : Bool := -powerOf 2 63 ≤ n && n < powerOf 2 63

/-- Whether an integer that a double holds has at most 63 bits. -/
def isShortInDouble (n : Int) : Bool := n.natAbs < powerOf 2 63

/-- A truth value: a boolean, the numbers 0 and 1, or a word for one. -/
def truth : Json → Checked Bool
  | .bool b => pure b
  | .str s => (whole s).andThen fun s =>
    match truthWord? s with
    | some b => pure b
    | none => wrong "bool_parsing"
  | j =>
    match (match j with
      | .int n => some n |>.filter isShort
      | .float x => x.toInt?.filter isShortInDouble
      | _ => none) with
    | some 0 => pure false
    | some 1 => pure true
    | some _ => wrong "bool_parsing"
    | none => wrong "bool_type"

/-- An integer: a whole number, a boolean, or a text that writes one. -/
def integer : Json → Checked Int
  | .int n => pure n
  | .bool b => pure (if b then 1 else 0)
  | .float x =>
    match x with
    | .nan | .infinite _ => wrong "finite_number"
    | x =>
      match x.toInt? with
      | some n => if isShortInDouble n then pure n else wrong "int_parsing_size"
      | none => wrong "int_from_float"
  | .str s => (whole s).andThen fun s =>
    match Numeral.inData s.toList with
    | .number n => pure n
    | .tooLong => wrong "int_parsing_size"
    | .other => wrong "int_parsing"
  | _ => wrong "int_type"

/-- The items of an array, each checked. -/
def items {α : Type} (f : Json → Checked α) : Json → Checked (List α)
  | .arr xs => all (xs.zipIdx.map fun (x, i) => (f x).under (toString i))
  | _ => wrong "list_type"

/-- The members of an object, each checked. -/
def members {α : Type} (f : Json → Checked α) : Json → Checked (Table String α)
  | .obj ms => all (ms.map fun (k, v) => ((k, ·) <$> f v).under k)
  | _ => wrong "dict_type"

/-- Null, or a value that is checked. -/
def optional {α : Type} (f : Json → Checked α) : Json → Checked (Option α)
  | .null => pure none
  | j => some <$> f j

/-- A record, checked member by member. -/
def record {α : Type} (f : Json.Members → Checked α) : Json → Checked α
  | .obj ms => f ms
  | _ => wrong "model_type"

/-- The member under the first of the names that is present. -/
def found? (ms : Json.Members) : List String → Option (String × Json)
  | [] => none
  | n :: ns =>
    match Table.find? ms n with
    | some v => some (n, v)
    | none => found? ms ns

/-- A member under one of its names, checked; `usual` is its value if it is
absent. -/
def member {α : Type} (ms : Json.Members) (names : List String) (f : Json → Checked α)
    (usual : α) : Checked α :=
  match found? ms names with
  | some (n, v) => (f v).under n
  | none => pure usual

/-- A member that must be present under one of its names. -/
def required {α : Type} (ms : Json.Members) (names : List String) (f : Json → Checked α) :
    Checked α :=
  match found? ms names with
  | some (n, v) => (f v).under n
  | none => .bad [⟨[names.headD ""], "missing"⟩]

end Checked
end ApiTree
