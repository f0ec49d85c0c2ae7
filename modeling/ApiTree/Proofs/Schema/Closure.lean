import ApiTree.Proofs.Schema.Derivation
import ApiTree.Proofs.Shape.Heads
import ApiTree.Proofs.Ty.Reach

/-!
# ApiTree.Proofs.Schema.Closure

The declared types that come with the schema of a type (`Catalog.usesOf`).  A definition refers to
the types that stand in its declaration (`Catalog.heads_definitionIn`), so all that come with a
type are found from it (`Catalog.mem_reachable_of_mem_usesOf`), where no fixed value reads as a
reference (`Catalog.Genuine`).
-/

namespace ApiTree

/-- The fixed values that stand in a declaration. -/
def Form.values : Form → List Json
  | .model fs _ _ _ | .record fs => fs.flatMap fun f => f.ty.values ++ f.default.toList
  | .root t => t.values
  | .enum members _ => members.map (·.2)
  | .opaqueClass => []

namespace Catalog

variable {c : Catalog} {t : Ty} {i : Nat} {u : Use}

/-- No fixed value in a type or in a declaration reads as a reference by a working name. -/
structure Genuine (c : Catalog) (t : Ty) : Prop where
  ty : ∀ v ∈ t.values, v.heads = []
  decls : ∀ d ∈ c, ∀ v ∈ d.form.values, v.heads = []

instance (c : Catalog) (t : Ty) : Decidable (c.Genuine t) :=
  decidable_of_iff ((∀ v ∈ t.values, v.heads = []) ∧ ∀ d ∈ c, ∀ v ∈ d.form.values, v.heads = [])
    ⟨fun h => ⟨h.1, h.2⟩, fun h => ⟨h.ty, h.decls⟩⟩

/-- No value of a declaration is a reference by a working name. -/
theorem Genuine.form (h : c.Genuine t) (i : Nat) : ∀ v ∈ (c.form i).values, v.heads = [] := by
  rw [Catalog.form, decl]
  by_cases hi : i < c.length
  · rw [List.getElem?_eq_getElem hi]
    exact h.decls _ (List.getElem_mem hi)
  · rw [List.getElem?_eq_none (Nat.le_of_not_lt hi)]
    exact fun v hv => absurd hv List.not_mem_nil

/-! ## definitions -/

/-- Without its notes a type leads to the same types. -/
theorem heads_stripped (t : Ty) : t.stripped.heads = t.heads := by
  cases t <;> rfl

/-- Without its notes a type has the same fixed values. -/
theorem values_stripped (t : Ty) : t.stripped.values = t.values := by
  cases t <;> rfl

/-- The shape of a part leads to the types in the part. -/
theorem heads_partShape (notes : List Note) (h : ∀ v ∈ t.values, v.heads = []) :
    (c.partShape t notes).heads = t.heads := by
  rw [partShape, heads_toldApart, Shape.heads_constrainAll,
    heads_shape_eq _ (values_stripped t ▸ h), heads_stripped]

/-- The shape of a field leads to the types in the field. -/
theorem heads_fieldShape (f : FieldDecl) (h : ∀ v ∈ f.ty.values, v.heads = []) :
    (c.fieldShape f).heads = f.ty.heads := by
  rw [fieldShape, Shape.heads_say, heads_partShape _ h]

/-- The schema of a field refers to the types in the field. -/
theorem heads_propertySchema (f : FieldDecl)
    (h : ∀ v ∈ f.ty.values ++ f.default.toList, v.heads = []) (shown : Json → Bool) :
    Json.heads (.obj (c.propertySchema f (f.default.filter shown))) ⊆ f.ty.heads := by
  have hty := heads_fieldShape (c := c) f fun v hv => h v (List.mem_append_left _ hv)
  have hschema : Json.heads (.obj (c.fieldShape f).schema) ⊆ f.ty.heads :=
    hty ▸ Shape.heads_schema (c.fieldShape f)
  rw [propertySchema.eq_def]
  cases hd : f.default.filter shown with
  | none => exact hschema
  | some d =>
      have hmem : d ∈ f.default.toList := Option.mem_toList.2 (Option.filter_eq_some_iff.1 hd).1
      refine List.Subset.trans (Json.heads_put_of_nil _ ?_) hschema
      rw [Json.headsUnder_of_ne d (by decide)]
      exact h d (List.mem_append_right _ hmem)

/-- A schema of fields refers to the types in the fields. -/
theorem heads_fieldsSchema {trim : Schema → Schema} (htrim : ∀ s, trim s ⊆ s) {fs : List FieldDecl}
    (h : ∀ v ∈ fs.flatMap (fun f => f.ty.values ++ f.default.toList), v.heads = [])
    (shown : Json → Bool) :
    Json.heads (.obj (c.fieldsSchema trim fs shown)) ⊆ fs.flatMap fun f => f.ty.heads := by
  have htype : Json.headsUnder ("type", .str "object") = [] := Json.headsUnder_text _ (by decide)
  have hrequired (fs : List FieldDecl) :
      Json.heads (.arr (fs.map fun f => Json.str f.wireName)) = [] := by
    rw [Json.heads_arr, List.flatMap_eq_nil_iff]
    intro v hv
    obtain ⟨f, -, rfl⟩ := List.mem_map.1 hv
    rfl
  have hproperties : Json.heads (.obj (Table.ofList (fs.map fun f =>
      (f.wireName, Json.obj (trim (c.propertySchema f (f.default.filter shown))))))) ⊆
        fs.flatMap fun f => f.ty.heads := by
    intro i hi
    rw [Json.heads_obj] at hi
    obtain ⟨e, he, hi⟩ := List.mem_flatMap.1 hi
    obtain ⟨f, hf, rfl⟩ := List.mem_map.1 (Table.mem_of_mem_ofList he)
    rw [Json.headsUnder_obj] at hi
    refine List.mem_flatMap.2
      ⟨f, hf, heads_propertySchema f ?_ shown (Json.heads_mono (htrim _) hi)⟩
    exact fun v hv => h v (List.mem_flatMap.2 ⟨f, hf, hv⟩)
  rw [fieldsSchema, Json.heads_obj, List.flatMap_append, List.flatMap_cons, List.flatMap_singleton,
    htype, List.nil_append, Json.headsUnder_obj]
  refine List.append_subset.2 ⟨hproperties, ?_⟩
  split
  · exact List.nil_subset _
  · rw [List.flatMap_singleton, Json.headsUnder_arr, hrequired]
    exact List.nil_subset _

theorem heads_extra (extra : Extra) : Json.heads (.obj extra.schema) = [] := by
  cases extra <;> rfl

/-- The definition of a type refers to the types in its declaration. -/
theorem heads_definitionWith {trim : Schema → Schema} (htrim : ∀ s, trim s ⊆ s) (extra : Extra)
    (h : ∀ v ∈ (c.form i).values, v.heads = []) :
    Json.heads (.obj (c.definitionWith trim extra i)) ⊆ c.next i := by
  rw [definitionWith]
  refine List.Subset.trans (Schema.heads_putText _ _ (by decide)) ?_
  refine List.Subset.trans (Json.heads_put_of_nil _ (Json.headsUnder_text _ (by decide))) ?_
  rw [next]
  cases hform : c.form i with
  | model fs own title asText =>
      rw [hform] at h
      rw [Json.heads_obj, List.flatMap_append, ← Json.heads_obj, ← Json.heads_obj, heads_extra,
        List.append_nil, Form.parts, List.flatMap_map]
      exact heads_fieldsSchema htrim h _
  | root t =>
      rw [hform] at h
      rw [Form.parts, List.flatMap_singleton, ← heads_partShape (c := c) t.notes h]
      exact Shape.heads_schema _
  | record fs =>
      rw [hform] at h
      rw [Json.heads_obj, List.flatMap_append, ← Json.heads_obj, ← Json.heads_obj, heads_extra,
        List.append_nil, Form.parts, List.flatMap_map]
      exact heads_fieldsSchema htrim h _
  | enum members base =>
      rw [hform] at h
      exact List.Subset.trans (Schema.heads_ofMembers _)
        (subset_of_eq (List.flatMap_eq_nil_iff.2 h))
  | opaqueClass => exact List.nil_subset _

/-- What a reference repeats of its definition is left out, and nothing else changes. -/
theorem withoutRepeats_subset (extra? : Use → Option Extra) (s : Schema) :
    c.withoutRepeats extra? s ⊆ s := by
  rw [withoutRepeats]
  split
  · exact fun e he => List.mem_of_mem_filter he
  · exact List.Subset.refl s

/-- A definition refers to the types that stand in its declaration. -/
theorem heads_definitionIn (h : c.Genuine t) (u : Use) :
    Json.heads (.obj (c.definitionIn t u)) ⊆ c.next u.index :=
  heads_definitionWith (withoutRepeats_subset _) _ (h.form u.index)

/-! ## what comes with a type -/

/-- The uses of declared types that come with the schema of a type. -/
def usesOf (c : Catalog) (t : Ty) : List Use := c.closure t (refersTo (c.top t))

/-- The uses that a schema refers to are of types that it refers to. -/
theorem index_mem_heads {s : Schema} (hu : u ∈ refersTo s) : u.index ∈ Json.heads (.obj s) :=
  List.mem_map_of_mem hu

/-- What stands in a type is found from it. -/
theorem mem_reachable_of_mem_heads (hi : i ∈ t.heads) : i ∈ c.reachable t :=
  mem_reachable_iff.2 ⟨i, hi, .refl⟩

/-- The definition of a type that is found refers to types that are found. -/
theorem mem_reachable_of_mem_definitionIn (h : c.Genuine t) {v : Use}
    (hv : v.index ∈ c.reachable t) (hu : u ∈ refersTo (c.definitionIn t v)) :
    u.index ∈ c.reachable t :=
  mem_reachable_of_mem_next hv (heads_definitionIn h v (index_mem_heads hu))

/-- The schema of a type refers to types that are found. -/
theorem mem_reachable_of_mem_schema (h : c.Genuine t) (hu : u ∈ refersTo (c.schema t)) :
    u.index ∈ c.reachable t :=
  mem_reachable_of_mem_heads <|
    heads_shape_eq (c := c) t h.ty ▸ Shape.heads_schema (c.shape t) (index_mem_heads hu)

/-- A type that is written in full refers to one use. -/
theorem refersTo_of_inFull? (h : c.inFull? t = some u) : refersTo (c.schema t) = [u] := by
  rw [inFull?] at h
  split at h
  · next v _ hrefers =>
      split at h
      · simp at h
      · rw [hrefers, Option.some.inj h]
  · simp at h

/-- At the top stands the schema of the type, or the definition that it refers to. -/
theorem top_cases (c : Catalog) (t : Ty) : c.top t = c.schema t ∨
    ∃ u, refersTo (c.schema t) = [u] ∧ c.top t = c.definitionIn t u := by
  rw [top]
  split
  · next u hu => exact .inr ⟨u, refersTo_of_inFull? (Option.filter_eq_some_iff.1 hu).1, rfl⟩
  · exact .inl rfl

/-- What stands at the top refers to types that are found. -/
theorem mem_reachable_of_mem_top (h : c.Genuine t) (hu : u ∈ refersTo (c.top t)) :
    u.index ∈ c.reachable t := by
  rcases top_cases c t with htop | ⟨v, hv, htop⟩
  · exact mem_reachable_of_mem_schema h (htop ▸ hu)
  · have hmem : v ∈ refersTo (c.schema t) := by simp [hv]
    exact mem_reachable_of_mem_definitionIn h (mem_reachable_of_mem_schema h hmem) (htop ▸ hu)

/-- All types that come with the schema of a type are found from it. -/
theorem mem_reachable_of_mem_usesOf (h : c.Genuine t) (hu : u ∈ c.usesOf t) :
    u.index ∈ c.reachable t := by
  obtain ⟨v, hv, hway⟩ := (exists_way_of_mem_depthFirst hu).resolve_left List.not_mem_nil
  clear hu
  induction hway with
  | refl => exact mem_reachable_of_mem_top h hv
  | tail _ hstep ih => exact mem_reachable_of_mem_definitionIn h ih hstep

end Catalog
end ApiTree
