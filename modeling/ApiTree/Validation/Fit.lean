import ApiTree.Validation.Checked

/-!
# ApiTree.Validation.Fit

Reading with a measure of how well a value fits.  A value may fit several members
of a union.  It is read as the member with the most fields that it gives, or else
as the one for which least was converted; `Fit` is what this choice looks at.

A reading either takes the value, or refuses it with everything that is wrong with
it, or stops: readings that stand beside each other are all made unless one of
them stops.
-/

namespace ApiTree

/-- How much a value was converted when it was read: not at all, only in how it
is held, or in what it is. -/
inductive Closeness where
  | exact
  | near
  | converted
deriving DecidableEq, Repr, Inhabited

namespace Closeness

/-- The place among the degrees, the best first. -/
def rank : Closeness → Nat
  | .exact => 0
  | .near => 1
  | .converted => 2

/-- The worse of two degrees. -/
def worse (a b : Closeness) : Closeness := if a.rank < b.rank then b else a

end Closeness

/-- How well a value fits a type: how much was converted, and how many fields of
records it gives, if there are records in it. -/
structure Fit where
  closeness : Closeness := .exact
  fields : Option Nat := none
deriving DecidableEq, Repr, Inhabited

namespace Fit

/-- The fit after a conversion. -/
def after (f : Fit) (c : Closeness) : Fit := { f with closeness := f.closeness.worse c }

/-- The fit with more fields. -/
def withFields (f : Fit) (n : Nat) : Fit := { f with fields := some (f.fields.getD 0 + n) }

/-- The fit of a value from those of its parts. -/
def both (a b : Fit) : Fit :=
  let f := a.after b.closeness
  b.fields.elim f f.withFields

/-- Whether a fit is better than another: more fields, or else less converted. -/
def better (a b : Fit) : Bool :=
  match a.fields, b.fields with
  | some n, some m => if n = m then a.closeness.rank < b.closeness.rank else m < n
  | _, _ => a.closeness.rank < b.closeness.rank

/-- Whether nothing was converted and no record is in the value. -/
def perfect (a : Fit) : Bool := a.closeness = .exact && a.fields.isNone

end Fit

/-- What comes of reading a value. -/
inductive Taken (α : Type) where
  | taken (a : α) (fit : Fit)
  | refused (issues : List Issue)
  | stopped (fault : Fault)
deriving Repr, Inhabited

/-- Reading, with the fit of what was read before. -/
def Take (α : Type) := Fit → Taken α

namespace Take

variable {α β : Type}

/-- A value that fits as it is. -/
def good (a : α) : Take α := fun f => .taken a f

/-- A single mistake at the value itself. -/
def wrong (kind : String) : Take α := fun _ => .refused [⟨[], kind⟩]

/-- Several mistakes. -/
def bad (issues : List Issue) : Take α := fun _ => .refused issues

/-- Reading that cannot go on. -/
def stop (fault : Fault) : Take α := fun _ => .stopped fault

/-- The result of a check. -/
def ofChecked : Checked α → Take α
  | .good a => good a
  | .bad is => bad is

/-- The next reading, of a value that was taken. -/
def andThen (x : Take α) (f : α → Take β) : Take β := fun fit =>
  match x fit with
  | .taken a fit => f a fit
  | .refused is => .refused is
  | .stopped e => .stopped e

/-- The reading with its value changed. -/
def map (f : α → β) (x : Take α) : Take β := x.andThen fun a => good (f a)

/-- The reading with a conversion after it. -/
def after (c : Closeness) (x : Take α) : Take α := x.andThen fun a fit => .taken a (fit.after c)

/-- The reading with a conversion before it. -/
def before (c : Closeness) (x : Take α) : Take α := fun fit => x (fit.after c)

/-- The reading seen from one level further out. -/
def under (part : String) (x : Take α) : Take α := fun fit =>
  match x fit with
  | .refused is => .refused (is.map (·.under part))
  | o => o

/-- Two readings beside each other. -/
def both (x : Take α) (y : Take β) : Take (α × β) := fun fit =>
  match x fit with
  | .taken a fit =>
    match y fit with
    | .taken b fit => .taken (a, b) fit
    | .refused is => .refused is
    | .stopped e => .stopped e
  | .refused is =>
    match y fit with
    | .taken .. => .refused is
    | .refused js => .refused (is ++ js)
    | .stopped e => .stopped e
  | .stopped e => .stopped e

/-- Readings beside each other. -/
def all : List (Take α) → Take (List α)
  | [] => good []
  | x :: xs => (both x (all xs)).map fun (a, as) => a :: as

/-- Reads a value as the member of a union that it fits best; each member comes with
its word.  A member that a value fits perfectly is taken at once, and what was
read before no longer counts; the issues of all members are reported if there is
none that takes the value. -/
def best (members : List (String × Take α)) : Take α := fun fit => go fit none [] members
where
  /-- Goes through the members with the best one so far and the issues of those
  before it. -/
  go (fit : Fit) (known : Option (α × Fit)) (issues : List Issue) :
      List (String × Take α) → Taken α
    | [] =>
      match known with
      | some (a, f) => .taken a (fit.both f)
      | none => .refused issues
    | (word, x) :: rest =>
      match x {} with
      | .taken a f =>
        if f.perfect then .taken a f
        else go fit (if known.all fun k => f.better k.2 then some (a, f) else known) issues rest
      | .refused is =>
        go fit known (issues ++ if known.isNone then is.map (·.under word) else []) rest
      | .stopped e => .stopped e

/-- The value, or the fault of an invalid one. -/
def toExcept (x : Take α) : Except Fault α :=
  match x {} with
  | .taken a _ => .ok a
  | .refused is => .error (.invalid is)
  | .stopped e => .error e

end Take
end ApiTree
