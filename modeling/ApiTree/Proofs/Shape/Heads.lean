import ApiTree.Proofs.Schema.Heads

/-!
# ApiTree.Proofs.Shape.Heads

The declared types that stand in a shape (`Shape.heads`).  The schema of a shape refers to no
others (`Shape.heads_schema`), and constraints, texts and tags around the shape leave them as they
are; so the shape of a type has the declared types of the type, unless a value in it reads as a
reference (`Catalog.heads_shape_eq`).
-/

namespace ApiTree

/-! ## shapes -/

namespace Shape

mutual

/-- The declared types in a shape, and those that fixed values in it refer to. -/
def heads : Shape → List Nat
  | .declared u => ((Use.ofName? u.name).map (·.index)).toList
  | .literal vs => vs.flatMap Json.heads
  | .gathered _ _ s | .sequence s | .nullable s | .limited _ s | .patterned _ s | .said _ _ s =>
    heads s
  | .entries _ k v => heads k ++ heads v
  | .row _ ss | .union ss => headsOfAll ss
  | .tagged _ members => headsOfTagged members
  | _ => []

/-- The declared types in shapes. -/
def headsOfAll : List Shape → List Nat
  | [] => []
  | s :: ss => heads s ++ headsOfAll ss

/-- The declared types in the members of a union. -/
def headsOfTagged : List (List Json × Shape) → List Nat
  | [] => []
  | (_, s) :: ss => heads s ++ headsOfTagged ss

end

/-- Tags add nothing to what shapes refer to. -/
theorem headsOfTagged_map (tags : Shape → List Json) (ss : List Shape) :
    headsOfTagged (ss.map fun s => (tags s, s)) = ss.flatMap heads := by
  induction ss with
  | nil => rfl
  | cons s ss ih => rw [List.map_cons, headsOfTagged, ih, List.flatMap_cons]

/-! ## schemas of shapes -/

/-- Writing bounds adds no references. -/
theorem heads_writeTo_bounds (b : Bounds) (s : Schema) :
    Json.heads (.obj (b.writeTo s)) ⊆ Json.heads (.obj s) := by
  rw [Bounds.writeTo]
  iterate 4 refine List.Subset.trans (Schema.heads_putNumber _ _ _) ?_
  exact Schema.heads_putNumber _ _ _

/-- Writing the bounds of a size adds no references. -/
theorem heads_writeTo_size (z : Size) (what : String) (s : Schema) :
    Json.heads (.obj (z.writeTo what s)) ⊆ Json.heads (.obj s) :=
  List.Subset.trans (Schema.heads_putNumber _ _ _) (Schema.heads_putNumber _ _ _)

theorem heads_numeric (b : Bounds) (k : Numeric) : Json.heads (.obj (k.schema b)) = [] := by
  have hbounds (b : Bounds) (name : String) :
      Json.heads (.obj (b.writeTo (Schema.ofType name))) = [] :=
    List.subset_nil.1 (Schema.heads_ofType name ▸ heads_writeTo_bounds b _)
  cases k with
  | int => exact hbounds b "integer"
  | float => exact hbounds b "number"
  | decimal =>
      have hparts := hbounds b.asDoubles "number"
      have htext := Schema.heads_ofType "string"
      rw [Numeric.schema, Json.heads_obj, List.flatMap_singleton, Json.headsUnder_arr,
        Json.heads_arr, List.flatMap_cons, List.flatMap_singleton, hparts, htext, List.nil_append]

theorem heads_ofFormat (format : String) : Json.heads (.obj (Schema.ofFormat format)) = [] := by
  rw [Schema.ofFormat, Json.heads_obj, List.flatMap_append, ← Json.heads_obj, Schema.heads_ofType,
    List.flatMap_singleton, Json.headsUnder_text format (by decide), List.nil_append]

/-- A reference by a working name refers to the type of the use. -/
theorem heads_reference (u : Use) : Json.heads (.obj (Reference.schema u.name)) =
    ((Use.ofName? u.name).map (·.index)).toList := by
  simp only [Json.heads, Reference.schema, Reference.all, Reference.allInMembers, beq_self_eq_true,
    if_true, List.append_nil, List.filterMap_cons, List.filterMap_nil, Reference.target?_pathTo,
    Option.bind_some]
  cases Use.ofName? u.name <;> rfl

/-- No constraint is written as a reference. -/
theorem keyword_ne (listed : Bool) (l : Limit) : l.keyword listed ≠ "$ref" := by
  cases l <;> cases listed <;> simp [Limit.keyword]

/-- The value of a constraint refers to nothing. -/
theorem headsUnder_value (k : String) (hk : k ≠ "$ref") (l : Limit) :
    Json.headsUnder (k, l.value) = [] := by
  cases l with
  | pattern p => exact Json.headsUnder_text p hk
  | _ n => exact Json.headsUnder_number k n

mutual

/-- The schema of a shape refers to no other declared types than those in it. -/
theorem heads_schema (s : Shape) : Json.heads (.obj s.schema) ⊆ s.heads := by
  cases s with
  | any => exact List.Subset.refl _
  | null => exact subset_of_eq (Schema.heads_ofType "null")
  | bool => exact subset_of_eq (Schema.heads_ofType "boolean")
  | uuid => exact subset_of_eq (heads_ofFormat "uuid")
  | number k b => exact subset_of_eq (heads_numeric b k)
  | moment k b => exact subset_of_eq (heads_ofFormat k.format)
  | text size p =>
      refine List.Subset.trans (Schema.heads_putText _ _ (by decide)) ?_
      exact List.Subset.trans (heads_writeTo_size _ _ _)
        (subset_of_eq (Schema.heads_ofType "string"))
  | bytes size =>
      exact List.Subset.trans (heads_writeTo_size _ _ _) (subset_of_eq (heads_ofFormat "binary"))
  | literal vs => exact Schema.heads_ofValues vs
  | gathered k size s =>
      refine List.Subset.trans (heads_writeTo_size _ _ _) ?_
      rw [Schema.heads_arrayOf]
      exact heads_schema s
  | sequence s =>
      rw [schema, Schema.heads_arrayOf]
      exact heads_schema s
  | row size ss =>
      refine List.Subset.trans (heads_writeTo_size _ _ _) ?_
      exact List.Subset.trans (Schema.heads_rowOf _) (heads_schemas ss)
  | entries size k v =>
      refine List.Subset.trans (heads_writeTo_size _ _ _) ?_
      refine List.Subset.trans (Schema.heads_entriesOf _ _) ?_
      exact List.append_subset.2 ⟨List.subset_append_of_subset_left _ (heads_schema k),
        List.subset_append_of_subset_right _ (heads_schema v)⟩
  | declared u => exact subset_of_eq (heads_reference u)
  | nullable s => exact List.Subset.trans (Schema.heads_nullable _) (heads_schema s)
  | union ss => exact List.Subset.trans (Schema.heads_anyOf _) (heads_schemas ss)
  | tagged property members =>
      exact List.Subset.trans (Schema.heads_oneOf _ _) (heads_taggedSchemas members)
  | limited l s =>
      refine List.Subset.trans (Json.heads_put_of_nil _ ?_) (heads_schema s)
      exact headsUnder_value _ (keyword_ne _ l) l
  | patterned p s => exact heads_schema s
  | said title description s =>
      refine List.Subset.trans (Schema.heads_putText _ _ (by decide)) ?_
      exact List.Subset.trans (Schema.heads_putText _ _ (by decide)) (heads_schema s)

/-- The schemas of shapes refer to what the shapes refer to. -/
theorem heads_schemas (ss : List Shape) :
    (schemas ss).flatMap (fun s => Json.heads (.obj s)) ⊆ headsOfAll ss := by
  cases ss with
  | nil => exact List.Subset.refl _
  | cons s ss =>
      rw [schemas, List.flatMap_cons, headsOfAll]
      exact List.append_subset.2 ⟨List.subset_append_of_subset_left _ (heads_schema s),
        List.subset_append_of_subset_right _ (heads_schemas ss)⟩

/-- The schemas of tagged shapes refer to what the shapes refer to. -/
theorem heads_taggedSchemas (members : List (List Json × Shape)) :
    (taggedSchemas members).flatMap (fun m => Json.heads (.obj m.2)) ⊆ headsOfTagged members := by
  cases members with
  | nil => exact List.Subset.refl _
  | cons m members =>
      rw [taggedSchemas, List.flatMap_cons, headsOfTagged]
      exact List.append_subset.2 ⟨List.subset_append_of_subset_left _ (heads_schema m.2),
        List.subset_append_of_subset_right _ (heads_taggedSchemas members)⟩

end

/-! ## constraints and texts -/

/-- A change that is made or not keeps what a shape refers to if the change does. -/
theorem heads_getD_map {α : Type} {x : Option α} {f : α → Shape} {s d : Shape}
    (hf : ∀ a, (f a).heads = s.heads) (hd : d.heads = s.heads) :
    ((x.map f).getD d).heads = s.heads := by
  cases x with
  | none => exact hd
  | some a => exact hf a

/-- A constraint that a shape knows leaves its parts as they are. -/
theorem heads_getD_within? (l : Limit) (s : Shape) {d : Shape} (hd : d.heads = s.heads) :
    ((s.within? l).getD d).heads = s.heads := by
  fun_cases within? l s with
  | case1 k b => exact heads_getD_map (fun _ => rfl) hd
  | case2 k b horder => exact heads_getD_map (fun _ => rfl) hd
  | case3 k b horder => exact hd
  | case4 size p q => rfl
  | case5 size p hnot => exact heads_getD_map (fun _ => rfl) hd
  | case6 size q => rfl
  | case7 size hnot => exact heads_getD_map (fun _ => rfl) hd
  | case8 k size s => exact heads_getD_map (fun _ => rfl) hd
  | case9 size ss => exact heads_getD_map (fun _ => rfl) hd
  | case10 size k v => exact heads_getD_map (fun _ => rfl) hd
  | case11 => exact hd

/-- A constraint around a shape keeps what it refers to. -/
theorem heads_around (l : Limit) (s : Shape) : (s.around l).heads = s.heads := by
  cases l <;> rfl

/-- A mark leaves the declared type as it is. -/
theorem heads_marked (l : Limit) (u : Use) :
    (Shape.declared (marked l u)).heads = (Shape.declared u).heads := by
  rw [marked]
  split
  · next hmark =>
      have hmark : u.mark = "" := by simpa using hmark
      have hplain : Use.ofName? u.name = some u := Use.ofName?_name_of (by simp [hmark])
      have hmarked : Use.ofName? (Use.name { u with mark := "_" ++ l.text }) =
          some { u with mark := "_" ++ l.text } := Use.ofName?_name_of (by simp)
      rw [heads, heads, hplain, hmarked]
      rfl
  · rfl

/-- A constraint keeps what a shape refers to. -/
theorem heads_constrain (l : Limit) (s : Shape) : (s.constrain l).heads = s.heads := by
  fun_induction constrain l s with
  | case1 s ih => exact ih
  | case2 u => rw [heads_around, heads_marked]
  | case3 title description u => rw [heads_around, heads_marked]; rfl
  | case4 title description s hne ih => exact ih
  | case5 s h₁ h₂ h₃ => exact heads_getD_within? l s (heads_around l s)

/-- Constraints keep what a shape refers to. -/
theorem heads_constrainAll (ls : List Limit) (s : Shape) :
    (ls.foldl (fun s l => s.constrain l) s).heads = s.heads := by
  induction ls generalizing s with
  | nil => rfl
  | cons l ls ih => rw [List.foldl_cons, ih, heads_constrain]

/-- A title and a description keep what a shape refers to. -/
theorem heads_say (title description : Option String) (s : Shape) :
    (s.say title description).heads = s.heads := by
  rw [say.eq_def]
  split <;> rfl

/-! ## unions -/

mutual

/-- The members of a union have the declared types of the union. -/
theorem heads_choices (s : Shape) : s.choices.2.flatMap heads = s.heads := by
  cases s with
  | nullable s => exact heads_choices s
  | union ms => exact heads_choicesOfAll ms
  | _ => exact List.flatMap_singleton _ _

/-- Taken apart into their choices, shapes refer to what they refer to as a whole. -/
theorem heads_choicesOfAll (ss : List Shape) :
    (choices.choicesOfAll ss).2.flatMap heads = headsOfAll ss := by
  cases ss with
  | nil => rfl
  | cons s ss =>
      rw [choices.choicesOfAll, List.flatMap_append, heads_choices s, heads_choicesOfAll ss,
        headsOfAll]

end

/-- Telling alternatives apart by a member keeps what a shape refers to. -/
theorem heads_discriminate (property : String) (tags : Shape → List Json) (s : Shape) :
    (s.discriminate property tags).heads = s.heads := by
  fun_induction discriminate property tags s with
  | case1 title description s ih => exact ih
  | case2 s ih => exact ih
  | case3 s _ _ members tagged hchoices =>
      have hmembers := heads_choices s
      rw [hchoices] at hmembers
      exact (headsOfTagged_map tags members).trans hmembers
  | case4 s _ _ empty members hchoices tagged hempty =>
      have hmembers := heads_choices s
      rw [hchoices] at hmembers
      exact (headsOfTagged_map tags members).trans hmembers

end Shape

namespace Catalog

variable {c : Catalog}

/-- Telling alternatives apart, or not, keeps what a shape refers to. -/
theorem heads_toldApart (property : Option String) (s : Shape) :
    (c.toldApart property s).heads = s.heads := by
  cases property with
  | none => rfl
  | some p => exact Shape.heads_discriminate _ _ s

/-- A note keeps what a shape refers to. -/
theorem heads_noted (s : Shape) (n : Note) : (c.noted s n).heads = s.heads := by
  have hlimits := Shape.heads_constrainAll n.limits s
  cases n with
  | field spec =>
      refine (Shape.heads_say _ _ _).trans ?_
      exact (heads_toldApart _ _).trans hlimits
  | _ => exact hlimits

/-- Notes keep what a shape refers to. -/
theorem heads_notedAll (ns : List Note) (s : Shape) : (ns.foldl c.noted s).heads = s.heads := by
  induction ns generalizing s with
  | nil => rfl
  | cons n ns ih => rw [List.foldl_cons, ih, heads_noted]

end Catalog

/-! ## types -/

namespace Ty

mutual

/-- The fixed values that stand in a type. -/
def values : Ty → List Json
  | .each _ t => values t
  | .tuple ts => valuesList ts
  | .keyed _ t u => values t ++ values u
  | .union _ ts => valuesList ts
  | .literal vs => vs
  | .annotated t _ => values t
  | _ => []

/-- The fixed values that stand in one of the types. -/
def valuesList : List Ty → List Json
  | [] => []
  | t :: ts => values t ++ valuesList ts

end

/-- What equals a scalar is one. -/
theorem heads_of_same_scalar {s : Scalar} {t : Ty} (h : same (.scalar s) t = true) :
    t.heads = [] := by
  cases t with
  | scalar s' => rfl
  | _ => simp [same] at h

end Ty

/-- The members of a union refer to what they refer to. -/
theorem Shape.heads_ofMembers (empty : Bool) (ss : List Shape) :
    (Shape.ofMembers empty ss).heads = headsOfAll ss := by
  match ss with
  | [] => cases empty <;> rfl
  | [s] => cases empty <;> simp [ofMembers, heads, headsOfAll]
  | s :: s' :: ss => cases empty <;> rfl

namespace Catalog

variable {c : Catalog}

mutual

/-- In the shape of a type stand the declared types of the type, where no value reads as a
reference. -/
theorem heads_shape_eq (t : Ty) (h : ∀ v ∈ t.values, v.heads = []) :
    (c.shape t).heads = t.heads := by
  cases t with
  | nothing => rfl
  | scalar s => cases s <;> rfl
  | bare b => cases b <;> rfl
  | cls i =>
      rw [shape, Shape.heads, Use.ofName?_name]
      rfl
  | each k t => cases k <;> exact heads_shape_eq t h
  | tuple ts => exact heads_shapes_eq ts h
  | keyed k t u =>
      have hkey := heads_shape_eq t fun v hv => h v (List.mem_append_left _ hv)
      have hvalue := heads_shape_eq u fun v hv => h v (List.mem_append_right _ hv)
      rw [shape, Shape.heads, hkey, hvalue, Ty.heads]
  | union style ts =>
      rw [shape, Shape.heads_ofMembers, heads_shapesNotNull_eq ts h, Ty.heads]
  | literal vs =>
      exact List.flatMap_eq_nil_iff.2 h
  | annotated t ns => exact (heads_notedAll ns _).trans (heads_shape_eq t h)

/-- The shapes of types refer to the declared types in them. -/
theorem heads_shapes_eq (ts : List Ty) (h : ∀ v ∈ Ty.valuesList ts, v.heads = []) :
    Shape.headsOfAll (c.shapes ts) = Ty.headsList ts := by
  cases ts with
  | nil => rfl
  | cons t ts =>
      have hhead := heads_shape_eq t fun v hv => h v (List.mem_append_left _ hv)
      have hrest := heads_shapes_eq ts fun v hv => h v (List.mem_append_right _ hv)
      rw [shapes, Shape.headsOfAll, hhead, hrest, Ty.headsList]

/-- The shapes of a union's members refer to the declared types in them. -/
theorem heads_shapesNotNull_eq (ts : List Ty) (h : ∀ v ∈ Ty.valuesList ts, v.heads = []) :
    Shape.headsOfAll (c.shapesNotNull ts) = Ty.headsList ts := by
  cases ts with
  | nil => rfl
  | cons t ts =>
      have hhead := heads_shape_eq t fun v hv => h v (List.mem_append_left _ hv)
      have hrest := heads_shapesNotNull_eq ts fun v hv => h v (List.mem_append_right _ hv)
      rw [shapesNotNull, Ty.headsList]
      split
      · next hnull => rw [hrest, Ty.heads_of_same_scalar hnull, List.nil_append]
      · rw [Shape.headsOfAll, hhead, hrest]

end

end Catalog
end ApiTree
