import ApiTree.Proofs.Conformance.Asked
import ApiTree.Proofs.Schema.Alternatives

/-!
# ApiTree.Proofs.Conformance.Structural

The encoded values of a structural type satisfy its schema (`Catalog.satisfies_schema`).  Each
keyword of such a schema asks for something of its own (`Schema.Asks`), and a schema admits the
values for which all of its keywords do.  A value of a union satisfies one of its
alternatives, which is among those that the schema lists, unless it is null.

References in the schema are renamed, and each has to lead to a definition that the values of its
enumeration satisfy.
-/

namespace ApiTree

/-! ## alternatives -/

open Reference Schema

/-- The alternatives of a schema, with references renamed, are founded, and every value with a
property satisfies one of them. -/
structure Covers (definitions : Table String Json) (R : Json → Json → Prop)
    (name : String → Option String) (s : Schema) (P : Json → Prop) : Prop where
  founded : ∀ a ∈ alternatives s, Founded definitions (Reference.renamed name .schema a)
  satisfied : ∀ v, P v → ∃ a ∈ alternatives s, R v (Reference.renamed name .schema a)

section Covers

variable {definitions : Table String Json} {R : Json → Json → Prop} {name : String → Option String}
  {s : Schema} {P : Json → Prop}

/-- A schema that covers some values is founded. -/
theorem Covers.founded_obj (h : Covers definitions R name s P) :
    Founded definitions (Reference.renamed name .schema (.obj s)) := by
  rcases alternatives_cases s with ⟨xs, rfl, hs⟩ | hs
  · have hfounded : ∀ t ∈ xs.map (Reference.renamed name .schema), Founded definitions t := by
      intro t ht
      obtain ⟨a, ha, rfl⟩ := List.mem_map.1 ht
      exact h.founded a (by rwa [hs])
    rw [renamed_anyOf]
    refine founded_of_keywords (by simp) ?_ ?_
    · simp only [List.mem_singleton, forall_eq, hasForm, isList]
      refine List.all_eq_true.2 fun t ht => ?_
      cases hfounded t ht
      rfl
    · simp only [List.mem_singleton, forall_eq]
      exact fun _ => hfounded
  · exact h.founded _ (by simp [hs])

/-- A value that is covered satisfies the schema. -/
theorem Covers.satisfies (hR : IsSatisfaction definitions none R)
    (h : Covers definitions R name s P) {v : Json} (hv : P v) :
    R v (Reference.renamed name .schema (.obj s)) := by
  obtain ⟨a, ha, hsat⟩ := h.satisfied v hv
  rcases alternatives_cases s with ⟨xs, rfl, hs⟩ | hs
  · rw [hs] at ha
    rw [renamed_anyOf]
    refine satisfies_of_asks hR ?_
    simpa [Asks] using ⟨a, ha, hsat⟩
  · rw [hs, List.mem_singleton] at ha
    exact ha ▸ hsat

theorem Covers.mono {Q : Json → Prop} (h : Covers definitions R name s P)
    (hQ : ∀ v, Q v → P v) : Covers definitions R name s Q :=
  ⟨h.founded, fun v hv => h.satisfied v (hQ v hv)⟩

/-- A schema that is its only alternative covers what satisfies it. -/
theorem covers_single (hs : alternatives s = [.obj s])
    (hfounded : Founded definitions (Reference.renamed name .schema (.obj s)))
    (h : ∀ v, P v → R v (Reference.renamed name .schema (.obj s))) :
    Covers definitions R name s P where
  founded a ha := by
    rw [hs, List.mem_singleton] at ha
    exact ha ▸ hfounded
  satisfied v hv := ⟨.obj s, by simp [hs], h v hv⟩

/-- A choice covers what one of its schemas covers. -/
theorem covers_united {ts : List Ty} {f : Ty → Schema} {Q : Ty → Json → Prop}
    (hplain : ∀ s ∈ ts.map f, Plain s) (hapart : Apart ((ts.map f).flatMap alternatives))
    (h : ∀ t ∈ ts, Covers definitions R name (f t) (Q t)) :
    Covers definitions R name (united (ts.map f)) fun v => ∃ t ∈ ts, Q t v where
  founded a ha := by
    obtain ⟨s, hs, hmem⟩ := (mem_alternatives_united hplain hapart a).1 ha
    obtain ⟨t, ht, rfl⟩ := List.mem_map.1 hs
    exact (h t ht).founded a hmem
  satisfied v hv := by
    obtain ⟨t, ht, hv⟩ := hv
    obtain ⟨a, ha, hsat⟩ := (h t ht).satisfied v hv
    exact ⟨a, (mem_alternatives_united hplain hapart a).2 ⟨_, List.mem_map_of_mem ht, ha⟩, hsat⟩

/-- Where null is allowed for, null is one value more. -/
theorem covers_nullable (hR : IsSatisfaction definitions none R) (hplain : Plain s)
    (h : Covers definitions R name s P) :
    Covers definitions R name (nullable s) fun v => v = .null ∨ P v := by
  have hfind (k : String) : Table.find? (renamedMembers name .schema s) k =
      (Table.find? s k).map (renamedUnder name .schema k) := by
    rw [renamedMembers_eq, Table.find?_mapValues]
  have hfounded := h.founded_obj
  have hsat (v : Json) (hv : P v) := h.satisfies hR hv
  refine covers_single (single_nullable hplain).alternatives ?_ ?_
  · rcases nullable_cases hplain.tidy.1 with heq | ⟨-, ⟨heq, -⟩ | ⟨heq, -⟩⟩
    · rw [heq]
      refine founded_of_keywords (s := [("allOf", .arr [_]), ("nullable", .bool true)])
        (by simp) ?_ ?_
      · simp [hasForm, isList, isObject, Json.isBool, Reference.renamed]
      · simpa [nested, schemaKeywords] using hfounded
    · rwa [heq]
    · rw [heq, renamed_append_nullable]
      exact founded_append_nullable hfounded
  · intro v hv
    rcases nullable_cases hplain.tidy.1 with heq | ⟨href, ⟨heq, hn⟩ | ⟨heq, hn⟩⟩
    · rw [heq]
      rcases hv with rfl | hv
      · exact satisfies_null hR rfl rfl
      · refine satisfies_of_asks hR (s := [("allOf", .arr [_]), ("nullable", .bool true)]) ?_
        simpa [Asks] using hsat v hv
    · rw [heq]
      rcases hv with rfl | hv
      · exact satisfies_null hR (by rw [hfind, href]; rfl) (by rw [hfind, hn]; rfl)
      · exact hsat v hv
    · rw [heq, renamed_append_nullable]
      have href' : Table.find? (renamedMembers name .schema s) "$ref" = none := by
        rw [hfind, href]
        rfl
      rcases hv with rfl | hv
      · refine satisfies_null hR ?_ ?_
        · rw [find?_append_nullable _ (by decide), href']
        · rw [Table.find?_append, hfind, hn]
          rfl
      · exact satisfies_append_nullable hR href' (hsat v hv)

end Covers

/-! ## structural types -/

namespace Catalog

variable {c : Catalog} {definitions : Table String Json} {R : Json → Json → Prop}
  {name : String → Option String}

/-- The reference to an enumeration leads to a founded definition that its values satisfy. -/
def Serves (c : Catalog) (definitions : Table String Json) (R : Json → Json → Prop)
    (name : String → Option String) (i : ℕ) : Prop :=
  ∃ d, Reference.follow definitions (renamedText name (pathTo (Use.name { index := i }))) = .ok d ∧
    Founded definitions d ∧ ∀ v, Ty.Encodes c (.cls i) v → R v d

/-- The schema of a plain scalar covers its values. -/
theorem covers_scalar (hR : IsSatisfaction definitions none R) {s : Scalar}
    (h : s ∈ [.null, .int, .bool, .float, .str]) :
    Covers definitions R name (c.schema (.scalar s)) (Ty.Encodes c (.scalar s)) := by
  have hfounded : Founded definitions (.obj [("type", .str (wordFor s))]) :=
    founded_of_keywords (by simp) (by simp [hasForm, isText]) (by simp [schemaKeywords])
  rw [schema_scalar h]
  refine covers_single rfl hfounded fun v hv => ?_
  refine satisfies_of_asks hR (s := [("type", .str (wordFor s))]) ?_
  simp only [List.mem_singleton, forall_eq, Asks]
  refine ⟨_, rfl, ?_⟩
  cases hv <;> simp [wordFor, Json.HasType]

/-- The schema of a range covers its integers. -/
theorem covers_within (hR : IsSatisfaction definitions none R) (low high : ℤ) :
    Covers definitions R name (c.schema (.intBetween low high))
      (Ty.Encodes c (.intBetween low high)) := by
  have hfounded : Founded definitions (.obj [("type", .str "integer"), ("maximum", .int high),
      ("minimum", .int low)]) :=
    founded_of_keywords (by simp) (by simp [hasForm, isText, Json.number?])
      (by simp [schemaKeywords])
  rw [schema_within]
  refine covers_single rfl hfounded fun v hv => ?_
  obtain ⟨n, rfl, hlow, hhigh⟩ : ∃ n : ℤ, v = .int n ∧ low ≤ n ∧ n ≤ high := by
    cases hv with
    | within hlow hhigh => exact ⟨_, rfl, hlow, hhigh⟩
  refine satisfies_of_asks hR (s := [("type", .str "integer"), ("maximum", .int high),
    ("minimum", .int low)]) ?_
  simp [Asks, Json.HasType, Json.number?, Number.int_lt_iff, hlow, hhigh]

/-- The schema of fixed values covers them. -/
theorem covers_literal (hR : IsSatisfaction definitions none R) {vs : List Json}
    (h : ∀ v ∈ vs, v.isLiteral = true) :
    Covers definitions R name (c.schema (.literal vs)) (Ty.Encodes c (.literal vs)) := by
  have hlists : Lists vs (c.schema (.literal vs)) := lists_ofValues vs
  have hsingle :
      Schema.alternatives (c.schema (.literal vs)) = [.obj (c.schema (.literal vs))] := by
    rcases schema_literal (c := c) vs with hs | ⟨word, -, hs⟩ <;> rw [hs] <;> rfl
  refine covers_single hsingle ?_ fun v hv => ?_
  · rw [hlists.renamed h]
    exact hlists.founded
  · rw [hlists.renamed h]
    cases hv with
    | literal hv => exact hlists.satisfies hR h hv

/-- The reference to an enumeration covers its members. -/
theorem covers_cls (hR : IsSatisfaction definitions none R) {i : ℕ}
    (h : c.Serves definitions R name i) :
    Covers definitions R name (c.schema (.cls i)) (Ty.Encodes c (.cls i)) := by
  obtain ⟨d, hd, hfounded, hsat⟩ := h
  rw [schema_cls]
  refine covers_single rfl ?_ fun v hv => ?_
  · exact founded_reference hd hfounded
  · exact satisfies_reference hR hd (hsat v hv)

/-- The schema of a collection covers lists of what its items cover. -/
theorem covers_each (hR : IsSatisfaction definitions none R) {k : Collector} {t : Ty}
    (hk : k ∈ [.list, .sequence, .run])
    (h : Covers definitions R name (c.schema t) (Ty.Encodes c t)) :
    Covers definitions R name (c.schema (.each k t)) (Ty.Encodes c (.each k t)) := by
  have hfounded : Founded definitions (.obj [("type", .str "array"),
      ("items", .obj (renamedMembers name .schema (c.schema t)))]) := by
    refine founded_of_keywords (by simp) (by simp [hasForm, isText, isObject]) ?_
    simpa [schemaKeywords, nested, Reference.renamed] using h.founded_obj
  rw [schema_each hk]
  refine covers_single rfl hfounded fun v hv => ?_
  obtain ⟨xs, rfl, hxs⟩ : ∃ xs, v = .arr xs ∧ ∀ x ∈ xs, Ty.Encodes c t x := by
    cases hv with
    | each hxs => exact ⟨_, rfl, hxs⟩
  refine satisfies_of_asks hR (s := [("type", .str "array"),
    ("items", .obj (renamedMembers name .schema (c.schema t)))]) ?_
  simpa [Asks, Json.HasType, Reference.renamed] using fun x hx => h.satisfies hR (hxs x hx)

/-- The schema of a map covers objects of what its values cover. -/
theorem covers_keyed (hR : IsSatisfaction definitions none R) {k : Keyed} {t : Ty}
    (hplain : Plain (c.schema t))
    (h : Covers definitions R name (c.schema t) (Ty.Encodes c t)) :
    Covers definitions R name (c.schema (.keyed k (.scalar .str) t))
      (Ty.Encodes c (.keyed k (.scalar .str) t)) := by
  have hfounded : Founded definitions (.obj [("type", .str "object"),
      ("additionalProperties", .obj (renamedMembers name .schema (c.schema t)))]) := by
    refine founded_of_keywords (by simp) (by simp [hasForm, isText, isObject]) ?_
    simpa [schemaKeywords, nested, Reference.renamed] using h.founded_obj
  rw [schema_keyed hplain]
  refine covers_single rfl hfounded fun v hv => ?_
  obtain ⟨ms, rfl, hms⟩ : ∃ ms, v = .obj ms ∧ ∀ e ∈ ms, Ty.Encodes c t e.2 := by
    cases hv with
    | keyed hms => exact ⟨_, rfl, hms⟩
  refine satisfies_of_asks hR (s := [("type", .str "object"),
    ("additionalProperties", .obj (renamedMembers name .schema (c.schema t)))]) ?_
  simpa [Asks, Json.HasType, Reference.renamed] using
    fun name w hw => h.satisfies hR (hms (name, w) hw)

/-- The schema of a tuple covers lists of what its places cover. -/
theorem covers_tuple (hR : IsSatisfaction definitions none R) {ts : List Ty}
    (h : ∀ t ∈ ts, Covers definitions R name (c.schema t) (Ty.Encodes c t)) :
    Covers definitions R name (c.schema (.tuple ts)) (Ty.Encodes c (.tuple ts)) := by
  obtain ⟨s, hs, hsingle, hentries⟩ : ∃ s, c.schema (.tuple ts) = s ∧
      Schema.alternatives s = [.obj s] ∧
      ∀ e ∈ renamedMembers name .schema s, e ∈ [("type", .str "array"),
        ("minItems", .int ts.length), ("maxItems", .int ts.length),
        ("prefixItems",
          .arr (ts.map fun t => Reference.renamed name .schema (.obj (c.schema t))))] := by
    refine ⟨_, rfl, ?_, ?_⟩
    · rw [schema_tuple, rowOf]
      split <;> rfl
    · rw [schema_tuple, rowOf, renamedMembers_eq]
      cases ts with
      | nil => simp [Table.mapValues, renamedUnder, Place.refers, Reference.renamed]
      | cons t ts =>
          simp [Table.mapValues, renamedUnder, Place.refers, Reference.renamed, renamedItems_eq]
  rw [hs]
  refine covers_single hsingle (founded_of_keywords ?_ ?_ ?_) fun v hv => ?_
  · intro e he
    have hmem := hentries e he
    simp only [List.mem_cons, List.not_mem_nil, or_false] at hmem
    obtain rfl | rfl | rfl | rfl := hmem <;> simp
  · intro e he
    have hmem := hentries e he
    simp only [List.mem_cons, List.not_mem_nil, or_false] at hmem
    obtain rfl | rfl | rfl | rfl := hmem <;>
      simp [hasForm, isText, isList, isObject, Json.number?, Reference.renamed]
  · intro e he hkeyword u hu
    have hmem := hentries e he
    simp only [List.mem_cons, List.not_mem_nil, or_false] at hmem
    obtain rfl | rfl | rfl | rfl := hmem
    case inr.inr.inr =>
      obtain ⟨t, ht, rfl⟩ := List.mem_map.1 hu
      exact (h t ht).founded_obj
    all_goals simp [schemaKeywords] at hkeyword
  · obtain ⟨xs, rfl, hlen, hxs⟩ : ∃ xs, v = .arr xs ∧ xs.length = ts.length ∧
        ∀ (i : Nat) x t, xs[i]? = some x → ts[i]? = some t → Ty.Encodes c t x := by
      cases hv with
      | tuple hlen hxs => exact ⟨_, rfl, hlen, hxs⟩
    refine satisfies_of_asks hR fun e he => ?_
    have hmem := hentries e he
    simp only [List.mem_cons, List.not_mem_nil, or_false] at hmem
    obtain rfl | rfl | rfl | rfl := hmem
    · simp [Asks, Json.HasType]
    · simp [Asks, Number.int_lt_iff, hlen]
    · simp [Asks, Number.int_lt_iff, hlen]
    · refine ⟨_, rfl, fun ys hys i x u hx hu => ?_⟩
      obtain rfl := Json.arr.inj hys
      rw [List.getElem?_map, Option.map_eq_some_iff] at hu
      obtain ⟨t, ht, rfl⟩ := hu
      exact (h t (List.mem_of_getElem? ht)).satisfies hR (hxs i x t hx ht)

/-- The encoded values of a structural type satisfy its schema, where each reference in it leads to
a definition that the values of its enumeration satisfy. -/
theorem covers_schema (hR : IsSatisfaction definitions none R) {t : Ty} (ht : Ty.Structural c t)
    (ha : c.Apart t) (hserves : ∀ i ∈ t.heads, c.Serves definitions R name i) :
    Covers definitions R name (c.schema t) (Ty.Encodes c t) := by
  induction ht with
  | scalar h => exact covers_scalar hR h
  | within _ => exact covers_within hR _ _
  | literal _ h => exact covers_literal hR h
  | @enum i _ _ _ _ _ _ => exact covers_cls hR (hserves i (by simp [Ty.heads]))
  | each hk _ ih => exact covers_each hR hk (ih ha hserves)
  | @tuple ts _ ih =>
      exact covers_tuple hR fun t ht => ih t ht (ha.of_mem_tuple ht) fun i hi =>
        hserves i (Ty.mem_headsList.2 ⟨t, ht, hi⟩)
  | keyed h ih =>
      exact covers_keyed hR (plain_schema h ha.of_keyed) (ih ha.of_keyed hserves)
  | @union style ts _ h ih =>
      have hplain := plain_members ha fun t ht => plain_schema (h t ht)
      have hmembers : ∀ t ∈ Ty.nonNull ts,
          Covers definitions R name (c.schema t) (Ty.Encodes c t) := by
        intro t ht
        have hmem := (List.mem_filter.1 ht).1
        exact ih t hmem (ha.of_mem_union hmem) fun i hi =>
          hserves i (Ty.mem_headsList.2 ⟨t, hmem, hi⟩)
      have hunited := covers_united hplain (apart_alternatives ha) hmembers
      -- a value of a union is null, or one of a member that is not the null type
      have hcases : ∀ v, Ty.Encodes c (.union style ts) v →
          (v = .null ∧ Ty.hasNull ts = true) ∨ ∃ t ∈ Ty.nonNull ts, Ty.Encodes c t v := by
        intro v hv
        cases hv with
        | @union _ _ t _ ht hv =>
            cases hnull : Ty.same (.scalar .null) t with
            | true =>
                obtain rfl := eq_null_of_same hnull
                cases hv
                exact .inl ⟨rfl, List.any_eq_true.2 ⟨_, ht, hnull⟩⟩
            | false => exact .inr ⟨t, List.mem_filter.2 ⟨ht, by simp [hnull]⟩, hv⟩
      rw [schema_union]
      cases hnull : Ty.hasNull ts with
      | true =>
          rw [if_pos rfl]
          refine (covers_nullable hR (plain_united hplain (apart_alternatives ha)) hunited).mono ?_
          exact fun v hv => (hcases v hv).imp_left And.left
      | false =>
          rw [if_neg Bool.false_ne_true]
          refine hunited.mono fun v hv => (hcases v hv).resolve_left ?_
          simp [hnull]

end Catalog
end ApiTree
