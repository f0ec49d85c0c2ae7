import ApiTree.Ty.Label

/-!
# ApiTree.Shape.Basic

Shapes: what a type says about its values.  In a shape unions are told apart
from nullability, open collections hold any items, and each constraint stands
where it takes effect: in the part that knows it, or else around it.

`Shape.constrain` adds a constraint and `Shape.say` a title and a description.
-/

namespace ApiTree

/-- A kind of numbers. -/
inductive Numeric where
  | int
  | float
  | decimal
deriving DecidableEq, Repr

/-- A kind of points in time. -/
inductive Timely where
  | date
  | datetime
deriving DecidableEq, Repr

/-- A collection of items of one shape. -/
inductive Collection where
  | list
  | set
  | frozenset
  /-- A row of any length. -/
  | run
deriving DecidableEq, Repr

/-- Bounds on numbers or points in time. -/
structure Bounds where
  gt : Option Number := none
  ge : Option Number := none
  lt : Option Number := none
  le : Option Number := none
  multipleOf : Option Number := none
deriving DecidableEq, Repr, Inhabited

/-- Bounds on how long a value is. -/
structure Size where
  least : Option Number := none
  most : Option Number := none
deriving DecidableEq, Repr, Inhabited

/-- The use of a declared type; the mark is that of the first constraint around
it. -/
structure Use where
  index : Nat
  mark : String := ""
deriving DecidableEq, Repr, Inhabited

/-- What a type says about its values. -/
inductive Shape where
  | any
  | null
  | bool
  | uuid
  | number (kind : Numeric) (bounds : Bounds)
  | moment (kind : Timely) (bounds : Bounds)
  | text (size : Size) (pattern : Option String)
  | bytes (size : Size)
  | literal (values : List Json)
  | gathered (kind : Collection) (size : Size) (item : Shape)
  /-- A sequence that is no text. -/
  | sequence (item : Shape)
  /-- A row with a shape for each place. -/
  | row (size : Size) (items : List Shape)
  | entries (size : Size) (key value : Shape)
  | declared (use : Use)
  /-- Null, or a value of a shape. -/
  | nullable (inner : Shape)
  | union (members : List Shape)
  /-- A union whose members are told apart by the value of a property. -/
  | tagged (property : String) (members : List (List Json × Shape))
  /-- A constraint around a shape that does not know it. -/
  | limited (limit : Limit) (inner : Shape)
  /-- A pattern around a shape of values that are no texts. -/
  | patterned (pattern : String) (inner : Shape)
  /-- A shape with a title and a description. -/
  | said (title description : Option String) (inner : Shape)
deriving Repr, Inhabited

/-- The bounds with one more; it takes the place of an earlier one of its kind.
`none` if it is no bound. -/
def Bounds.with? (b : Bounds) : Limit → Option Bounds
  | .gt n => some { b with gt := some n }
  | .ge n => some { b with ge := some n }
  | .lt n => some { b with lt := some n }
  | .le n => some { b with le := some n }
  | .multipleOf n => some { b with multipleOf := some n }
  | _ => none

/-- The size with one more bound. -/
def Size.with? (s : Size) : Limit → Option Size
  | .minLength n => some { s with least := some n }
  | .maxLength n => some { s with most := some n }
  | _ => none

/-- Whether there are no bounds. -/
def Bounds.isFree (b : Bounds) : Bool := b = {}

/-- Whether there are no bounds on the size. -/
def Size.isFree (s : Size) : Bool := s = {}

namespace Limit

/-- Whether a constraint is about order, so that points in time can have it. -/
def isOrder : Limit → Bool
  | .gt _ | .ge _ | .lt _ | .le _ => true
  | _ => false

end Limit

namespace Shape

/-- The shape with a constraint that it knows. -/
def within? (l : Limit) : Shape → Option Shape
  | .number k b => (b.with? l).map (.number k)
  | .moment k b => if l.isOrder then (b.with? l).map (.moment k) else none
  | .text size p =>
    match l with
    | .pattern p => some (.text size (some p))
    | l => (size.with? l).map (.text · p)
  | .bytes size =>
    match l with
    | .pattern _ => some (.bytes size)
    | l => (size.with? l).map .bytes
  | .gathered k size s => (size.with? l).map (.gathered k · s)
  | .row size ss => (size.with? l).map (.row · ss)
  | .entries size k v => (size.with? l).map (.entries · k v)
  | _ => none

/-- The shape with a constraint around it. -/
def around (l : Limit) (s : Shape) : Shape :=
  match l with
  | .pattern p => .patterned p s
  | l => .limited l s

/-- The use of a declared type with a constraint around it. -/
def marked (l : Limit) (u : Use) : Use :=
  if u.mark.isEmpty then { u with mark := "_" ++ l.text } else u

/-- The shape with one more constraint.  Of values that may be null the others
are constrained; what is said about a declared type goes. -/
def constrain (l : Limit) : Shape → Shape
  | .nullable s => .nullable (constrain l s)
  | .declared u => around l (.declared (marked l u))
  | .said title description s =>
    match s with
    | .declared u => around l (.declared (marked l u))
    | s => .said title description (constrain l s)
  | s => (s.within? l).getD (around l s)

/-- The shape with a title and a description, which take the place of earlier
ones. -/
def say (title description : Option String) (s : Shape) : Shape :=
  match title, description, s with
  | none, none, s => s
  | _, _, .said t d s => .said (title.or t) (description.or d) s
  | _, _, s => .said title description s

/-- The members of a union, unions among them opened, and whether null is one of
them. -/
def choices : Shape → Bool × List Shape
  | .nullable s => (true, (choices s).2)
  | .union ms => choicesOfAll ms
  | s => (false, [s])
where
  /-- The members of all of the shapes. -/
  choicesOfAll : List Shape → Bool × List Shape
    | [] => (false, [])
    | s :: ss =>
      let (empty, members) := choices s
      let (empty', members') := choicesOfAll ss
      (empty || empty', members ++ members')

/-- The union of which the members are told apart by a property; `tags` are the
values that a member has for it. -/
def discriminate (property : String) (tags : Shape → List Json) : Shape → Shape
  | .said title description s => .said title description (discriminate property tags s)
  | .nullable s => .nullable (discriminate property tags s)
  | s =>
    let (empty, members) := s.choices
    let tagged : Shape := .tagged property (members.map fun m => (tags m, m))
    if empty then .nullable tagged else tagged

/-- The shape without constraints around it and what is said about it. -/
def core : Shape → Shape
  | .limited _ s | .patterned _ s | .said _ _ s => core s
  | s => s

end Shape
end ApiTree
