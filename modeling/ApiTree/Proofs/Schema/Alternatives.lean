import ApiTree.Proofs.Schema.Listed

/-!
# ApiTree.Proofs.Schema.Alternatives

The schemas of structural types.  The schema of a union has the alternatives of its members, where
these are apart (`Schema.mem_alternatives_united`), and each of them stands for itself
(`Schema.Single`).  So what such a schema says is said by its alternatives, and what it
refers to are the enumerations that stand in the type (`Catalog.mem_references_iff`).
-/

namespace ApiTree

namespace Schema

/-! ## of equal schemas the last -/

/-- The schemas that are kept, with one more. -/
def keep (kept : List Json) (s : Json) : List Json :=
  if kept.any s.looseEq then kept.map fun t => if s.looseEq t then s else t else kept ++ [s]

/-- What is left when repeated values are dropped is built value by value. -/
theorem latest_eq_foldl (xs : List Json) : latest xs = xs.foldl keep [] := rfl

/-- Schemas that are equal by value are the same. -/
def Apart (xs : List Json) : Prop := ∀ a ∈ xs, ∀ b ∈ xs, a.looseEq b = true → a = b

/-- Where values are apart, one more is kept beside the others. -/
theorem mem_keep {kept : List Json} {x : Json} (h : Apart (kept ++ [x])) (a : Json) :
    a ∈ keep kept x ↔ a ∈ kept ++ [x] := by
  rw [keep]
  split
  · next hany =>
      obtain ⟨t, ht, hsame⟩ := List.any_eq_true.1 hany
      have hx : x ∈ kept := h x (by simp) t (by simp [ht]) hsame ▸ ht
      have hmap : (kept.map fun t => if x.looseEq t then x else t) = kept := by
        refine (List.map_congr_left fun u hu => ?_).trans (List.map_id kept)
        split
        · next heq => exact h x (by simp) u (by simp [hu]) heq
        · rfl
      rw [hmap, List.mem_append, List.mem_singleton]
      exact ⟨.inl, fun ha => ha.elim id fun heq => heq ▸ hx⟩
  · rfl

/-- Where schemas are apart, none is lost and none is new. -/
theorem mem_latest {xs : List Json} (h : Apart xs) (a : Json) : a ∈ latest xs ↔ a ∈ xs := by
  suffices hfold : ∀ kept : List Json, Apart (kept ++ xs) →
      (a ∈ xs.foldl keep kept ↔ a ∈ kept ++ xs) by
    rw [latest_eq_foldl]
    exact hfold [] h
  clear h
  induction xs with
  | nil => simp
  | cons x xs ih =>
      intro kept h
      have hsub : ∀ b ∈ kept ++ [x], b ∈ kept ++ x :: xs := by
        intro b hb
        simp only [List.mem_append, List.mem_cons, List.not_mem_nil, or_false] at hb ⊢
        exact hb.imp_right .inl
      have hall (b : Json) : b ∈ keep kept x ++ xs ↔ b ∈ kept ++ x :: xs := by
        rw [List.mem_append, mem_keep fun a ha b hb => h a (hsub a ha) b (hsub b hb)]
        simp [or_assoc]
      rw [List.foldl_cons, ih _ fun a ha b hb => h a ((hall a).1 ha) b ((hall b).1 hb), hall]

/-! ## schemas that stand for themselves -/

/-- A schema without a title, that may be nullable. -/
def Tidy (s : Schema) : Prop := ∀ e ∈ s, e.1 ≠ "title" ∧ (e.1 = "nullable" → e.2 = .bool true)

/-- A tidy schema has no title. -/
theorem Tidy.not_mem_keys {s : Schema} (h : Tidy s) : "title" ∉ Table.keys s := by
  intro hmem
  obtain ⟨e, he, heq⟩ := List.mem_map.1 hmem
  exact (h e he).1 heq

/-- A schema that is its own only alternative. -/
structure Single (s : Schema) : Prop where
  alternatives : alternatives s = [.obj s]
  tidy : Tidy s
  nonempty : s ≠ []

/-- A schema the alternatives of which stand for themselves. -/
def Plain (s : Schema) : Prop := ∀ a ∈ alternatives s, ∃ x, a = .obj x ∧ Single x

/-- The alternatives of a schema are those of its `anyOf` alone, or the schema. -/
theorem alternatives_cases (s : Schema) :
    (∃ xs, s = [("anyOf", .arr xs)] ∧ alternatives s = xs) ∨ alternatives s = [.obj s] := by
  rw [alternatives.eq_def]
  split
  · exact .inl ⟨_, rfl, rfl⟩
  · exact .inr rfl

/-- A schema that is one alternative is plain. -/
theorem Single.plain {s : Schema} (h : Single s) : Plain s := by
  intro a ha
  rw [h.alternatives, List.mem_singleton] at ha
  exact ⟨s, ha, h⟩

/-- A plain schema is tidy and not empty. -/
theorem Plain.tidy {s : Schema} (h : Plain s) : Tidy s ∧ s ≠ [] := by
  rcases alternatives_cases s with ⟨xs, rfl, -⟩ | hs
  · simp [Tidy]
  · obtain ⟨x, hx, hsingle⟩ := h (.obj s) (by simp [hs])
    obtain rfl := Json.obj.inj hx
    exact ⟨hsingle.tidy, hsingle.nonempty⟩

/-- Nullability is written around a reference, else beside what there is, unless it is there. -/
theorem nullable_cases {s : Schema} (h : Tidy s) :
    nullable s = [("allOf", .arr [.obj s]), ("nullable", .bool true)] ∨
      Table.find? s "$ref" = none ∧
        (nullable s = s ∧ Table.find? s "nullable" = some (.bool true) ∨
          nullable s = s ++ [("nullable", .bool true)] ∧ Table.find? s "nullable" = none) := by
  rw [nullable]
  split
  · exact .inl rfl
  · next href =>
      have hnone : Table.find? s "$ref" = none := by
        rwa [Table.find?_eq_none_iff, ← Table.has_iff_mem_keys]
      refine .inr ⟨hnone, ?_⟩
      cases hn : Table.find? s "nullable" with
      | none => exact .inr ⟨Table.put_of_not_mem ((Table.find?_eq_none_iff _ _).1 hn) _, rfl⟩
      | some v =>
          obtain rfl := (h _ (Table.mem_of_find? hn)).2 rfl
          exact .inl ⟨Table.put_of_find? hn, rfl⟩

/-- A schema that also admits null has no reference at its top. -/
theorem not_has_nullable (s : Schema) : Table.has (nullable s) "$ref" = false := by
  rw [nullable]
  split
  · rfl
  · next h =>
      rw [← Bool.not_eq_true, Table.has_iff_mem_keys, Table.mem_keys_put, not_or,
        ← Table.has_iff_mem_keys]
      exact ⟨h, by decide⟩

/-- A plain schema that also admits null is one alternative. -/
theorem single_nullable {s : Schema} (h : Plain s) : Single (nullable s) := by
  obtain ⟨htidy, hne⟩ := h.tidy
  rcases nullable_cases htidy with heq | ⟨-, ⟨heq, hn⟩ | ⟨heq, -⟩⟩
  · rw [heq]
    exact ⟨rfl, by simp [Tidy], by simp⟩
  · rw [heq]
    rcases alternatives_cases s with ⟨xs, rfl, -⟩ | hs
    · simp [Table.find?_cons] at hn
    · exact ⟨hs, htidy, hne⟩
  · rw [heq]
    refine ⟨?_, ?_, by simp⟩
    · rcases alternatives_cases (s ++ [("nullable", .bool true)]) with ⟨xs, hs, -⟩ | hs
      · have hlen := congrArg List.length hs
        simp [hne] at hlen
      · exact hs
    · intro e he
      rcases List.mem_append.1 he with he | he
      · exact htidy e he
      · obtain rfl := List.mem_singleton.1 he
        simp

/-! ## unions -/

/-- The schema of the values of some schemas. -/
def united (ss : List Schema) : Schema :=
  match ss with
  | [s] => s
  | ss => anyOf ss

/-- A union has the alternatives of its members. -/
theorem mem_alternatives_united {ss : List Schema} (hplain : ∀ s ∈ ss, Plain s)
    (hapart : Apart (ss.flatMap alternatives)) (a : Json) :
    a ∈ alternatives (united ss) ↔ ∃ s ∈ ss, a ∈ alternatives s := by
  rw [← List.mem_flatMap, united.eq_def]
  split
  · simp
  · rw [← mem_latest hapart, anyOf]
    split
    · next s hs =>
        -- the one schema that is left is an alternative, so it stands for itself
        have hmem : Json.obj s ∈ ss.flatMap alternatives := (mem_latest hapart _).1 (by simp [hs])
        obtain ⟨s', hs', hmem⟩ := List.mem_flatMap.1 hmem
        obtain ⟨x, hx, hsingle⟩ := hplain s' hs' _ hmem
        obtain rfl := Json.obj.inj hx
        rw [hsingle.alternatives, hs]
    · rfl

/-- Plain schemas whose alternatives are apart have a plain choice. -/
theorem plain_united {ss : List Schema} (hplain : ∀ s ∈ ss, Plain s)
    (hapart : Apart (ss.flatMap alternatives)) : Plain (united ss) := by
  intro a ha
  obtain ⟨s, hs, hmem⟩ := (mem_alternatives_united hplain hapart a).1 ha
  exact hplain s hs a hmem

end Schema

/-! ## references -/

namespace Schema

open Reference

variable {s : Schema} {ref : String}

/-- A schema refers to what one of its alternatives refers to. -/
theorem mem_all_iff : ref ∈ all (.obj s) ↔ ∃ a ∈ alternatives s, ref ∈ all a := by
  rcases alternatives_cases s with ⟨xs, rfl, hs⟩ | hs
  · rw [hs, ← mem_allInItems, all, mem_allInMembers]
    simp [all]
  · simp [hs]

/-- A tidy schema refers to the same where null is admitted too. -/
theorem mem_all_nullable (h : Tidy s) : ref ∈ all (.obj (nullable s)) ↔ ref ∈ all (.obj s) := by
  rcases nullable_cases h with heq | ⟨-, ⟨heq, -⟩ | ⟨heq, -⟩⟩
  · simp [heq, all, allInMembers, allInItems]
  · rw [heq]
  · rw [heq, all, all, mem_allInMembers, mem_allInMembers]
    simp [all]

end Schema

/-! ## schemas of types -/

namespace Catalog

open Schema

variable {c : Catalog}

/-- The schema of a type under working names. -/
def schema (c : Catalog) (t : Ty) : Schema := (c.shape t).schema

/-- The word for the values of a type without parts. -/
def wordFor : Scalar → String
  | .null => "null"
  | .int => "integer"
  | .bool => "boolean"
  | .float => "number"
  | _ => "string"

/-- The schema of a plain scalar says the type of its values. -/
theorem schema_scalar {s : Scalar} (h : s ∈ [.null, .int, .bool, .float, .str]) :
    c.schema (.scalar s) = [("type", .str (wordFor s))] := by
  simp only [List.mem_cons, List.not_mem_nil, or_false] at h
  obtain rfl | rfl | rfl | rfl | rfl := h <;> rfl

/-- The schema of fixed values lists them, and says the type that they share. -/
theorem schema_literal (vs : List Json) : c.schema (.literal vs) = [("enum", .arr vs)] ∨
    ∃ word, Schema.sharedType? vs = some word ∧
      c.schema (.literal vs) = [("enum", .arr vs), ("type", .str word)] := by
  have hvalues : c.schema (.literal vs) = Schema.ofValues vs := rfl
  rw [hvalues, Schema.ofValues]
  cases Schema.sharedType? vs with
  | none => exact .inl rfl
  | some word => exact .inr ⟨word, rfl, rfl⟩

/-- The schema of a declared type refers to it by its working name. -/
theorem schema_cls (i : Nat) : c.schema (.cls i) = Reference.schema (Use.name { index := i }) := rfl

/-- The schema of a range of integers says both ends. -/
theorem schema_within (low high : Int) : c.schema (.intBetween low high) =
    [("type", .str "integer"), ("maximum", .int high), ("minimum", .int low)] := rfl

/-- The schema of a collection says the schema of its items. -/
theorem schema_each {k : Collector} (hk : k ∈ [.list, .sequence, .run]) (t : Ty) :
    c.schema (.each k t) = [("type", .str "array"), ("items", .obj (c.schema t))] := by
  simp only [List.mem_cons, List.not_mem_nil, or_false] at hk
  obtain rfl | rfl | rfl := hk <;> rfl

/-- The schema of a tuple is the row of the schemas of its places. -/
theorem schema_tuple (ts : List Ty) : c.schema (.tuple ts) = Schema.rowOf (ts.map c.schema) := by
  have hshapes : ∀ ts : List Ty, Shape.schemas (c.shapes ts) = ts.map c.schema := by
    intro ts
    induction ts with
    | nil => rfl
    | cons t ts ih => exact congrArg (c.schema t :: ·) ih
  rw [← hshapes]
  rfl

/-- The schema of a map with texts as keys says the schema of its values. -/
theorem schema_keyed {t : Ty} (h : Plain (c.schema t)) (k : Keyed) :
    c.schema (.keyed k (.scalar .str) t) =
      [("type", .str "object"), ("additionalProperties", .obj (c.schema t))] := by
  obtain ⟨htidy, hne⟩ := h.tidy
  have herase : Table.erase (c.schema t) "title" = c.schema t :=
    Table.erase_of_not_mem htidy.not_mem_keys
  have hkeyed : c.schema (.keyed k (.scalar .str) t) = [("type", .str "object"),
      ("additionalProperties", if (Table.erase (c.schema t) "title").isEmpty then .bool true
        else .obj (Table.erase (c.schema t) "title"))] := rfl
  rw [hkeyed, herase, if_neg (by simpa using hne)]

/-- The schemas of a union's members are those of the types that are not null. -/
theorem schemas_shapesNotNull (ts : List Ty) :
    Shape.schemas (c.shapesNotNull ts) = (Ty.nonNull ts).map c.schema := by
  rw [shapesNotNull_eq]
  induction Ty.nonNull ts with
  | nil => rfl
  | cons t ts ih => exact congrArg (c.schema t :: ·) ih

/-- The members of a union become a choice, which also admits null if null is among them. -/
theorem schema_ofMembers (empty : Bool) (ss : List Shape) : (Shape.ofMembers empty ss).schema =
    if empty then nullable (united (Shape.schemas ss)) else united (Shape.schemas ss) := by
  match ss with
  | [] => cases empty <;> rfl
  | [s] => cases empty <;> rfl
  | s :: s' :: ss => cases empty <;> rfl

/-- The schema of a union is the choice of its members' schemas. -/
theorem schema_union (style : UnionStyle) (ts : List Ty) : c.schema (.union style ts) =
    if Ty.hasNull ts then nullable (united ((Ty.nonNull ts).map c.schema))
    else united ((Ty.nonNull ts).map c.schema) := by
  rw [← schemas_shapesNotNull, ← schema_ofMembers]
  rfl

/-- The alternatives of each member of a union are among those of the union. -/
theorem apart_alternatives {style : UnionStyle} {ts : List Ty} (h : c.Apart (.union style ts)) :
    Schema.Apart (((Ty.nonNull ts).map c.schema).flatMap Schema.alternatives) := by
  have hts := h ts (by simp [Ty.unions])
  rwa [alternatives, schemas_shapesNotNull] at hts

/-- The alternatives are apart in each place of a tuple. -/
theorem Apart.of_mem_tuple {ts : List Ty} {t : Ty} (h : c.Apart (.tuple ts)) (ht : t ∈ ts) :
    c.Apart t := fun us hus => h us (Ty.mem_unionsList.2 ⟨t, ht, hus⟩)

/-- The alternatives are apart in each member of a union. -/
theorem Apart.of_mem_union {style : UnionStyle} {ts : List Ty} {t : Ty}
    (h : c.Apart (.union style ts)) (ht : t ∈ ts) : c.Apart t :=
  fun us hus => h us (List.mem_cons_of_mem _ (Ty.mem_unionsList.2 ⟨t, ht, hus⟩))

/-- The alternatives are apart in the values of a map. -/
theorem Apart.of_keyed {k : Keyed} {key t : Ty} (h : c.Apart (.keyed k key t)) : c.Apart t :=
  fun us hus => h us (List.mem_append_right _ hus)

/-- The schemas of a union's members are plain. -/
theorem plain_members {style : UnionStyle} {ts : List Ty} (ha : c.Apart (.union style ts))
    (h : ∀ t ∈ ts, c.Apart t → Plain (c.schema t)) :
    ∀ s ∈ (Ty.nonNull ts).map c.schema, Plain s := by
  intro s hs
  obtain ⟨t, ht, rfl⟩ := List.mem_map.1 hs
  have hmem := (List.mem_filter.1 ht).1
  exact h t hmem (ha.of_mem_union hmem)

/-- The alternatives of the schema of a structural type stand for themselves. -/
theorem plain_schema {t : Ty} (ht : Ty.Structural c t) (ha : c.Apart t) : Plain (c.schema t) := by
  induction ht with
  | scalar h =>
      rw [schema_scalar h]
      exact Single.plain ⟨rfl, by simp [Tidy], by simp⟩
  | within _ =>
      rw [schema_within]
      exact Single.plain ⟨rfl, by simp [Tidy], by simp⟩
  | literal _ _ =>
      rcases schema_literal _ with hs | ⟨word, -, hs⟩ <;> rw [hs]
      · exact Single.plain ⟨rfl, by simp [Tidy], by simp⟩
      · exact Single.plain ⟨rfl, by simp [Tidy], by simp⟩
  | enum _ _ _ _ =>
      rw [schema_cls, Reference.schema]
      exact Single.plain ⟨rfl, by simp [Tidy], by simp⟩
  | each hk _ _ =>
      rw [schema_each hk]
      exact Single.plain ⟨rfl, by simp [Tidy], by simp⟩
  | tuple _ _ =>
      rw [schema_tuple, Schema.rowOf]
      split <;> exact Single.plain ⟨rfl, by simp [Tidy], by simp⟩
  | keyed _ ih =>
      rw [schema_keyed (ih ha.of_keyed)]
      exact Single.plain ⟨rfl, by simp [Tidy], by simp⟩
  | union _ _ ih =>
      have hunited := plain_united (plain_members ha ih) (apart_alternatives ha)
      rw [schema_union]
      split
      · exact (single_nullable hunited).plain
      · exact hunited

/-- An alternative of a structural type that is a reference leads to an enumeration in the type. -/
theorem eq_reference_of_mem_alternatives {t : Ty} (ht : Ty.Structural c t) (ha : c.Apart t)
    {s : Schema} (hs : .obj s ∈ Schema.alternatives (c.schema t))
    (href : Table.has s "$ref" = true) :
    ∃ i ∈ t.heads, s = Reference.schema (Use.name { index := i }) := by
  have hself {x : Schema} (hx : Schema.alternatives x = [.obj x])
      (hnot : Table.has x "$ref" = false) : .obj s ∉ Schema.alternatives x := by
    rw [hx, List.mem_singleton]
    intro heq
    rw [← Json.obj.inj heq, href] at hnot
    cases hnot
  induction ht with
  | scalar h =>
      rw [schema_scalar h] at hs
      exact absurd hs (hself rfl rfl)
  | within _ =>
      rw [schema_within] at hs
      exact absurd hs (hself rfl rfl)
  | @literal vs _ _ =>
      rcases schema_literal (c := c) vs with heq | ⟨word, -, heq⟩ <;> rw [heq] at hs
      · exact absurd hs (hself rfl rfl)
      · exact absurd hs (hself rfl rfl)
  | enum _ _ _ _ =>
      rw [schema_cls] at hs
      exact ⟨_, List.mem_singleton_self _, Json.obj.inj (List.mem_singleton.1 hs)⟩
  | each hk _ _ =>
      rw [schema_each hk] at hs
      exact absurd hs (hself rfl rfl)
  | tuple _ _ =>
      rw [schema_tuple, Schema.rowOf] at hs
      split at hs
      · exact absurd hs (hself rfl rfl)
      · exact absurd hs (hself rfl rfl)
  | keyed h _ =>
      rw [schema_keyed (plain_schema h ha.of_keyed)] at hs
      exact absurd hs (hself rfl rfl)
  | @union style ts _ h ih =>
      have hplain := plain_members ha fun t ht => plain_schema (h t ht)
      rw [schema_union] at hs
      split at hs
      · have hsingle := single_nullable (plain_united hplain (apart_alternatives ha))
        exact absurd hs (hself hsingle.alternatives (not_has_nullable _))
      · obtain ⟨x, hx, hs⟩ := (mem_alternatives_united hplain (apart_alternatives ha) _).1 hs
        obtain ⟨t, ht, rfl⟩ := List.mem_map.1 hx
        have hmem := (List.mem_filter.1 ht).1
        obtain ⟨i, hi, heq⟩ := ih t hmem (ha.of_mem_union hmem) hs
        exact ⟨i, Ty.mem_headsList.2 ⟨t, hmem, hi⟩, heq⟩

/-- The schema of a structural type that is a reference refers to an enumeration in the type. -/
theorem eq_reference_of_has {t : Ty} (ht : Ty.Structural c t) (ha : c.Apart t)
    (href : Table.has (c.schema t) "$ref" = true) :
    ∃ i ∈ t.heads, c.schema t = Reference.schema (Use.name { index := i }) := by
  rcases alternatives_cases (c.schema t) with ⟨xs, heq, -⟩ | heq
  · rw [heq] at href
    exact absurd href Bool.false_ne_true
  · exact eq_reference_of_mem_alternatives ht ha (by simp [heq]) href

/-- The choice of a union's members refers to what one of them refers to. -/
theorem mem_all_united {style : UnionStyle} {ts : List Ty} {ref : String}
    (ha : c.Apart (.union style ts)) (h : ∀ t ∈ ts, c.Apart t → Plain (c.schema t)) :
    ref ∈ Reference.all (.obj (united ((Ty.nonNull ts).map c.schema))) ↔
      ∃ t ∈ Ty.nonNull ts, ref ∈ Reference.all (.obj (c.schema t)) := by
  rw [mem_all_iff]
  simp only [mem_alternatives_united (plain_members ha h) (apart_alternatives ha), List.mem_map,
    mem_all_iff (s := c.schema _)]
  constructor
  · rintro ⟨a, ⟨_, ⟨t, ht, rfl⟩, hmem⟩, hall⟩
    exact ⟨t, ht, a, hmem, hall⟩
  · rintro ⟨t, ht, a, hmem, hall⟩
    exact ⟨a, ⟨_, ⟨t, ht, rfl⟩, hmem⟩, hall⟩

/-- The schema of a structural type refers to the enumerations that stand in the type. -/
theorem mem_references_iff {t : Ty} (ht : Ty.Structural c t) (ha : c.Apart t) (ref : String) :
    ref ∈ Reference.all (.obj (c.schema t)) ↔
      ∃ i ∈ t.heads, ref = Reference.pathTo (Use.name { index := i }) := by
  induction ht with
  | scalar h => simp [schema_scalar h, Reference.all, Reference.allInMembers, Ty.heads]
  | within _ =>
      rw [schema_within, Ty.intBetween]
      simp [Reference.all, Reference.allInMembers, Ty.heads]
  | @literal vs _ h =>
      have hall : Reference.all (.obj (c.schema (.literal vs))) = [] :=
        (lists_ofValues vs).all_eq_nil h
      simp [hall, Ty.heads]
  | @enum i _ _ _ _ _ _ =>
      simp [schema_cls, Reference.schema, Reference.all, Reference.allInMembers, Ty.heads]
  | each hk _ ih =>
      rw [schema_each hk, Ty.heads, ← ih ha]
      simp [Reference.all, Reference.allInMembers]
  | @tuple ts _ ih =>
      have hitems : ref ∈ Reference.allInItems ((ts.map c.schema).map .obj) ↔
          ∃ i ∈ Ty.headsList ts, ref = Reference.pathTo (Use.name { index := i }) := by
        simp only [Reference.mem_allInItems, List.map_map, List.mem_map, Function.comp_apply,
          exists_exists_and_eq_and, Ty.exists_mem_headsList]
        exact exists_congr fun t => and_congr_right fun ht => ih t ht (ha.of_mem_tuple ht)
      rw [schema_tuple, Schema.rowOf, Ty.heads, ← hitems]
      cases ts <;> simp [Reference.all, Reference.allInMembers, Reference.allInItems]
  | @keyed k t h ih =>
      have hheads : (Ty.keyed k (.scalar .str) t).heads = t.heads := rfl
      rw [schema_keyed (plain_schema h ha.of_keyed), hheads, ← ih ha.of_keyed]
      simp [Reference.all, Reference.allInMembers]
  | @union style ts _ h ih =>
      have hplain : ∀ t ∈ ts, c.Apart t → Plain (c.schema t) := fun t ht => plain_schema (h t ht)
      have hunited : ref ∈ Reference.all (.obj (united ((Ty.nonNull ts).map c.schema))) ↔
          ∃ i ∈ Ty.headsList ts, ref = Reference.pathTo (Use.name { index := i }) := by
        rw [mem_all_united ha hplain, Ty.exists_mem_headsList]
        constructor
        · rintro ⟨t, ht, href⟩
          have hmem := (List.mem_filter.1 ht).1
          exact ⟨t, hmem, (ih t hmem (ha.of_mem_union hmem)).1 href⟩
        · rintro ⟨t, ht, i, hi, href⟩
          -- the null type, which the union leaves out, has no declared type in it
          have hnull : Ty.same (.scalar .null) t ≠ true := by
            intro hsame
            rw [eq_null_of_same hsame] at hi
            simp [Ty.heads] at hi
          exact ⟨t, List.mem_filter.2 ⟨ht, by simpa using hnull⟩,
            (ih t ht (ha.of_mem_union ht)).2 ⟨i, hi, href⟩⟩
      rw [schema_union, Ty.heads, ← hunited]
      split
      · exact mem_all_nullable (plain_united (plain_members ha hplain)
          (apart_alternatives ha)).tidy.1
      · rfl

end Catalog
end ApiTree
