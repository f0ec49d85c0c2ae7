import ApiTree.Shape.Basic

/-!
# ApiTree.Shape.OfTy

The shapes of types and of the parts of declarations.
-/

namespace ApiTree

/-- The shape of a scalar. -/
def Scalar.shape : Scalar → Shape
  | .any | .object => .any
  | .null => .null
  | .int => .number .int {}
  | .bool => .bool
  | .float => .number .float {}
  | .str => .text {} none
  | .bytes => .bytes {}
  | .date => .moment .date {}
  | .datetime => .moment .datetime {}
  | .uuid => .uuid
  | .decimal => .number .decimal {}

/-- The shape of an open collection. -/
def Bare.shape : Bare → Shape
  | .list => .gathered .list {} .any
  | .dict => .entries {} .any .any
  | .tuple => .gathered .run {} .any
  | .set => .gathered .set {} .any

/-- The shape of a collection. -/
def Collector.shape (item : Shape) : Collector → Shape
  | .list => .gathered .list {} item
  | .sequence => .sequence item
  | .set => .gathered .set {} item
  | .frozenset => .gathered .frozenset {} item
  | .run => .gathered .run {} item

/-- The shape of a union of some shapes, one of which may be null. -/
def Shape.ofMembers (empty : Bool) (members : List Shape) : Shape :=
  let s := match members with
    | [s] => s
    | ss => .union ss
  if empty then .nullable s else s

namespace Catalog

/-! ## Unions told apart by a property -/

/-- The values by which a field tells the members of a union apart. -/
def tagValues (c : Catalog) : Ty → List Json
  | .literal vs => vs
  | .annotated (.literal vs) _ => vs
  | .cls i =>
    match c.form i with
    | .enum members _ => members.map (·.2)
    | _ => []
  | _ => []

/-- The field of a declaration by its name. -/
def fieldOf? (c : Catalog) (i : Nat) (name : String) : Option FieldDecl :=
  match c.form i with
  | .model fs _ _ _ | .record fs => fs.find? (·.name == name)
  | _ => none

/-- The values by which a property tells a shape apart. -/
def tagsOf (c : Catalog) (property : String) (s : Shape) : List Json :=
  match s.core with
  | .declared u => ((c.fieldOf? u.index property).map fun f => c.tagValues f.ty).getD []
  | .tagged _ members => members.flatMap (·.1)
  | _ => []

/-- The name of a property in encoded form, where the members that are records
have it. -/
def tagName (c : Catalog) (property : String) (s : Shape) : String :=
  (s.choices.2.findSome? fun m =>
    match m.core with
    | .declared u => (c.fieldOf? u.index property).map (·.wireName)
    | _ => none).getD property

/-- The shape with its members told apart by a property, if one is given. -/
def toldApart (c : Catalog) (property : Option String) (s : Shape) : Shape :=
  match property with
  | some p => s.discriminate (c.tagName p s.core) (c.tagsOf p)
  | none => s

/-! ## Shapes of types -/

/-- The shape with what a note says. -/
def noted (c : Catalog) (s : Shape) (n : Note) : Shape :=
  let s := n.limits.foldl (fun s l => s.constrain l) s
  match n with
  | .field spec => (c.toldApart spec.discriminator s).say spec.title spec.description
  | _ => s

mutual

/-- The shape of a type. -/
def shape (c : Catalog) : Ty → Shape
  | .nothing => .null
  | .scalar s => s.shape
  | .bare b => b.shape
  | .cls i => .declared { index := i }
  | .each k t => k.shape (shape c t)
  | .tuple ts => .row {} (shapes c ts)
  | .keyed _ t u => .entries {} (shape c t) (shape c u)
  | .union _ ts => .ofMembers (Ty.hasNull ts) (shapesNotNull c ts)
  | .literal vs => .literal vs
  | .annotated t ns => ns.foldl c.noted (shape c t)

/-- The shapes of types. -/
def shapes (c : Catalog) : List Ty → List Shape
  | [] => []
  | t :: ts => shape c t :: shapes c ts

/-- The shapes of the types that are not null. -/
def shapesNotNull (c : Catalog) : List Ty → List Shape
  | [] => []
  | t :: ts =>
    if Ty.same (.scalar .null) t then shapesNotNull c ts else shape c t :: shapesNotNull c ts

end

/-- The shape of a part of a declaration with some notes, apart from the title
and the description that they give. -/
def partShape (c : Catalog) (t : Ty) (notes : List Note) : Shape :=
  c.toldApart (Note.last? (·.discriminator) notes) <|
    (notes.flatMap Note.limits).foldl (fun s l => s.constrain l) (c.shape t.stripped)

/-- The shape of a field.  What is said last counts. -/
def fieldShape (c : Catalog) (f : FieldDecl) : Shape :=
  (c.partShape f.ty f.notes).say
    (Note.last? (·.title) f.notes) (Note.last? (·.description) f.notes)

/-- The shape of what a wrapper holds. -/
def rootShape (c : Catalog) (t : Ty) : Shape := c.partShape t t.notes

/-- The shapes of the parts of a declaration. -/
def partShapes (c : Catalog) (i : Nat) : List Shape :=
  match c.form i with
  | .model fs _ _ _ | .record fs => fs.map c.fieldShape
  | .root t => [c.rootShape t]
  | .enum .. | .opaqueClass => []

end Catalog
end ApiTree
