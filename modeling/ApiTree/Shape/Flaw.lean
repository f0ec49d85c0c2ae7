import ApiTree.Fault
import ApiTree.Shape.OfTy
import ApiTree.Shape.Word
import ApiTree.Ty.Reach

/-!
# ApiTree.Shape.Flaw

Constraints that a shape cannot have.  A bound has to be of the kind that it
bounds, and a size a number of parts.  `Catalog.checkUse` tells whether values of a
type can be read.
-/

namespace ApiTree

/-- The name of the first bound that does not fit what it bounds. -/
def Bounds.unfit? (b : Bounds) (fits : Number → Bool) : Option String :=
  let named : List (String × Option Number) :=
    [("multiple_of", b.multipleOf), ("le", b.le), ("lt", b.lt), ("ge", b.ge), ("gt", b.gt)]
  named.findSome? fun (name, bound) => if bound.all fits then none else some name

/-- What is wrong with a size, if something is. -/
def Size.flaw? (z : Size) : Option String :=
  [z.least, z.most].findSome? fun
    | some (.float _) => some "TypeError: 'float' object cannot be interpreted as an integer"
    | some (.int n) =>
      if n < 0 then some "OverflowError: can't convert negative int to unsigned" else none
    | none => none

namespace Shape

/-- Whether a number can bound integers. -/
def boundsIntegers : Number → Bool
  | .int _ => true
  | .float x => x.toInt?.any fun n => n.natAbs < powerOf 2 63

/-- What is wrong inside a shape of a kind. -/
def flawIn (kind flaw : String) : String :=
  "Error building \"" ++ kind ++ "\" validator:\n  " ++ flaw

/-- What is wrong with a bound of a given name. -/
def unfitBound (what name : String) : String :=
  "ValueError: " ++ quoted name ++ " must be coercible to " ++ what

/-- What is wrong inside another shape. -/
def within (flaw : Option String) : Option String := flaw.map ("SchemaError: " ++ ·)

mutual

/-- What is wrong with a shape, if something is. -/
def flaw? (c : Catalog) (s : Shape) : Option String :=
  let found : Option String := match s with
    | .number .int b => (b.unfit? boundsIntegers).map (unfitBound "an integer")
    | .moment .date b => (b.unfit? fun _ => false).map (unfitBound "a date instance")
    | .text z _ | .bytes z => z.flaw?
    | .gathered _ z s => (within (flaw? c s)).or z.flaw?
    | .row z ss => (innerFlaws? c ss).or z.flaw?
    | .entries z k v => (within (flaw? c k)).or (within (flaw? c v)) |>.or z.flaw?
    | .sequence s => (within (flaw? c s)).map fun f => "SchemaError: " ++ flawIn "list" f
    | .nullable s | .limited _ s | .patterned _ s => within (flaw? c s)
    | .union ss => innerFlaws? c ss
    | _ => none
  match s with
  | .said _ _ s => flaw? c s
  | s => found.map (flawIn (s.kindWord c))
termination_by structural s

/-- What is wrong with the first of some shapes inside another that is not right. -/
def innerFlaws? (c : Catalog) (ss : List Shape) : Option String :=
  match ss with
  | [] => none
  | s :: ss => (within (flaw? c s)).or (innerFlaws? c ss)
termination_by structural ss

end

/-- What is wrong with a shape inside another. -/
def innerFlaw? (c : Catalog) (s : Shape) : Option String := within (s.flaw? c)

end Shape

namespace Catalog

/-- What is wrong with a field, if something is. -/
def fieldFlaw? (c : Catalog) (f : FieldDecl) : Option String :=
  ((c.fieldShape f).innerFlaw? c).map fun flaw =>
    "Field \"" ++ f.wireName ++ "\":\n  " ++
      if f.default.isSome then "SchemaError: " ++ Shape.flawIn "default" flaw else flaw

/-- What is wrong with a declaration, if something is. -/
def declaredFlaw? (c : Catalog) (i : Nat) : Option String :=
  let ofFields (kind parts : String) (fs : List FieldDecl) : Option String :=
    (fs.findSome? c.fieldFlaw?).map fun flaw =>
      Shape.flawIn kind ("SchemaError: " ++ Shape.flawIn parts ("SchemaError: " ++ flaw))
  match c.form i with
  | .model fs _ _ _ => ofFields "model" "model-fields" fs
  | .record fs => ofFields "dataclass" "dataclass-args" fs
  | .root t => ((c.rootShape t).innerFlaw? c).map (Shape.flawIn "model")
  | .enum .. | .opaqueClass => none

/-- Fails unless values of the type can be read. -/
def checkUse (c : Catalog) (t : Ty) : Except Fault Unit :=
  if !c.hasSchema t then .error .underivable
  else
    match ((c.shape t).flaw? c).or ((c.reachable t).findSome? c.declaredFlaw?) with
    | some flaw => .error (.flawed flaw)
    | none => .ok ()

end Catalog
end ApiTree
