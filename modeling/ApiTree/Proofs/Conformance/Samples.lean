import ApiTree.Proofs.Conformance.Structural
import ApiTree.Proofs.Sample.Encoded
import ApiTree.Proofs.Schema.Derivation
import ApiTree.Proofs.Schema.Replay

/-!
# ApiTree.Proofs.Conformance.Samples

No false alarms: what is drawn for a structural type passes the check against the schema of the
type (`check_sample_passes`), in every union of which the alternatives that are equal by value are
the same.

What is derived for such a type is satisfied by its encoded values wherever its
definitions are at hand (`Catalog.satisfies_derived`), and a registry that was asked for
the type has them (`Registry.satisfies_schemaOf`).
-/

namespace ApiTree

open Schema Reference

namespace Catalog

variable {c : Catalog} {t : Ty} {d : Derived} {definitions : Table String Json}
  {R : Json → Json → Prop}

/-! ## what is derived -/

/-- A definition that lists the labels of an enumeration serves it. -/
theorem serves_of_lists (hR : IsSatisfaction definitions none R) {name : String → Option String}
    {i : ℕ} {members : List (String × Json)} {base : Option EnumBase}
    (hform : c.form i = .enum members base) (hlabels : ∀ v ∈ members.map (·.2), v.isLabel = true)
    {s : Schema} (hlists : Lists (members.map (·.2)) s)
    (hfollow : Reference.follow definitions (renamedText name (pathTo (Use.name { index := i }))) =
      .ok (.obj s)) : c.Serves definitions R name i := by
  refine ⟨_, hfollow, hlists.founded, fun v hv => ?_⟩
  cases hv with
  | enum hform' hv =>
      obtain ⟨rfl, -⟩ := Form.enum.inj (hform.symm.trans hform')
      exact hlists.satisfies hR (fun v hv => Json.isLiteral_of_isLabel (hlabels v hv)) hv

theorem follow_pathTo {n : String} {j : Json} (h : Table.find? definitions n = some j) :
    Reference.follow definitions (pathTo n) = .ok j := by
  rw [Reference.follow, target?_pathTo]
  simp only [h]

theorem renamedText_none (ref : String) : renamedText (fun _ => none) ref = ref := by
  simp [renamedText]

/-- Where the derived definitions are at hand, what is derived for a structural type is founded,
and the encoded values of the type satisfy it. -/
theorem satisfies_derived (ht : Ty.Structural c t) (ha : c.Apart t) (hd : c.derive t = .ok d)
    (hdefinitions : ∀ e ∈ d.definitions, Table.find? definitions e.1 = some (.obj e.2))
    (hR : IsSatisfaction definitions none R) :
    Founded definitions (.obj d.schema) ∧ ∀ v, Ty.Encodes c t v → R v (.obj d.schema) := by
  rcases derive_cases ht ha hd with ⟨i, hi, hschema, rfl⟩ | ⟨-, types, htypes, rfl⟩
  · obtain ⟨members, base, hform, hlabels⟩ := ht.exists_enum hi
    have hlists := (lists_definitionIn hform t).untitled
    refine ⟨hlists.founded, fun v hv => ?_⟩
    -- the values satisfy a reference to the enumeration, among definitions that have it alone
    let alone : Table String Json :=
      [(Use.name { index := i }, .obj (untitled (c.definitionIn t { index := i })))]
    have hfollow : Reference.follow alone (pathTo (Use.name { index := i })) =
        .ok (.obj (untitled (c.definitionIn t { index := i }))) :=
      follow_pathTo (by simp [alone, Table.find?])
    have hguarded : Guarded alone := guarded_of_founded fun n j hj => by
      obtain ⟨-, rfl⟩ : n = _ ∧ j = _ := by simpa [alone] using Table.mem_of_find? hj
      exact hlists.founded
    obtain ⟨R', hR', -⟩ : ∃! R, IsSatisfaction alone none R := existsUnique_satisfaction hguarded
    have hserves : ∀ j ∈ t.heads, c.Serves alone R' (fun _ => none) j := by
      intro j hj
      have hmem := (mem_refersTo_schema ht ha _).2 ⟨j, hj, rfl⟩
      rw [hschema, refersTo_reference, List.mem_singleton, Use.mk.injEq] at hmem
      obtain ⟨rfl, -⟩ := hmem
      exact serves_of_lists hR' hform hlabels hlists (by rwa [renamedText_none])
    have hsat := (covers_schema hR' ht ha hserves).satisfies hR' hv
    rw [hschema, hR'] at hsat
    obtain ⟨j, hj, hsat⟩ := hsat
    have hfollow' : Reference.follow alone
        (renamedText (fun _ => none) (pathTo (Use.name { index := i }))) = .ok j := hj
    rw [renamedText_none, hfollow] at hfollow'
    obtain rfl := Except.ok.inj hfollow'
    exact hlists.satisfies_of_satisfies hR' hR hsat
  · let name (s : String) : Option String := (Use.ofName? s).bind (c.namesOf t types).find?
    have hschema : Json.obj (c.assembled t (c.schema t) types).schema =
        Reference.renamed name .schema (.obj (c.schema t)) := by
      have hkeys : "title" ∉ Table.keys (renamedMembers name .schema (c.schema t)) := by
        rw [renamedMembers_eq, Table.keys_mapValues]
        exact (plain_schema ht ha).tidy.1.not_mem_keys
      exact congrArg Json.obj (Table.erase_of_not_mem hkeys)
    have hserves : ∀ i ∈ t.heads, c.Serves definitions R name i := by
      intro i hi
      obtain ⟨members, base, hform, hlabels⟩ := ht.exists_enum hi
      obtain ⟨n, s, hn, hmem, hlists⟩ :=
        exists_definition ht (c.schema t) htypes hi hform hlabels
      refine serves_of_lists hR hform hlabels hlists ?_
      have hrenamed : renamedText name (pathTo (Use.name { index := i })) = pathTo n := by
        simp [renamedText, target?_pathTo, name, Use.ofName?_name, hn]
      rw [hrenamed]
      exact follow_pathTo (hdefinitions _ hmem)
    have hcovers := covers_schema hR ht ha hserves
    rw [hschema]
    exact ⟨hcovers.founded_obj, fun v hv => hcovers.satisfies hR hv⟩

/-- The components that come with a type: its definitions, and its own schema if it is one. -/
def Brings (c : Catalog) (t : Ty) (n : String) (s : Schema) : Prop :=
  ∃ d, c.derive t = .ok d ∧ ((n, s) ∈ d.definitions ∨ c.componentName? t d = some n ∧ s = d.schema)

/-- A type whose schema is a component is a declared type, the schema of which is a reference. -/
theorem has_of_componentName {n : String} (h : c.componentName? t d = some n) :
    Table.has (c.schema t) "$ref" = true := by
  cases t with
  | cls i => rfl
  | _ => simp [componentName?] at h

/-- The components that come with a structural type list the labels of enumerations. -/
theorem lists_of_brings (ht : Ty.Structural c t) (ha : c.Apart t) {n : String} {s : Schema}
    (h : c.Brings t n s) : ∃ vs, Lists vs s := by
  obtain ⟨d, hd, hcase⟩ := h
  have huntitled {i : ℕ} (hi : i ∈ t.heads) :
      ∃ vs, Lists vs (untitled (c.definitionIn t { index := i })) := by
    obtain ⟨members, base, hform, -⟩ := ht.exists_enum hi
    exact ⟨_, (lists_definitionIn hform t).untitled⟩
  rcases derive_cases ht ha hd with ⟨i, hi, -, rfl⟩ | ⟨href, types, htypes, rfl⟩
  · rcases hcase with hmem | ⟨-, rfl⟩
    · simp at hmem
    · exact huntitled hi
  · rcases hcase with hmem | ⟨hn, -⟩
    · obtain ⟨u, hu, heq⟩ := lists_definitions ht (fun u hu => (htypes u).1 hu) _ hmem
      obtain ⟨i, hi, rfl⟩ := (htypes u).1 hu
      obtain ⟨-, rfl⟩ := Prod.mk.inj heq
      exact huntitled hi
    · rw [has_of_componentName hn] at href
      cases href

/-- A name stands for one of the components that come with a structural type. -/
theorem eq_of_brings (ht : Ty.Structural c t) (ha : c.Apart t) {n : String} {s s' : Schema}
    (h : c.Brings t n s) (h' : c.Brings t n s') : s = s' := by
  obtain ⟨d, hd, hcase⟩ := h
  obtain ⟨d', hd', hcase'⟩ := h'
  obtain rfl : d = d' := Except.ok.inj (hd.symm.trans hd')
  -- where the schema of the type is a component there are no definitions beside it
  have hnone (hn : c.componentName? t d = some n) : d.definitions = [] := by
    rcases derive_cases ht ha hd with ⟨i, -, -, rfl⟩ | ⟨href, -⟩
    · rfl
    · rw [has_of_componentName hn] at href
      cases href
  rcases hcase with hmem | ⟨hn, rfl⟩ <;> rcases hcase' with hmem' | ⟨hn', rfl⟩
  · have hnodup := nodup_definitions hd
    exact Option.some.inj ((Table.find?_of_mem hnodup hmem).symm.trans
      (Table.find?_of_mem hnodup hmem'))
  · simp [hnone hn'] at hmem
  · simp [hnone hn] at hmem'
  · rfl

end Catalog

/-! ## what a registry gives -/

namespace Registry

variable {c : Catalog} {t : Ty} {schema : Schema} {r : Registry}

/-- A registry that was asked for a structural type has founded components, and gave a founded
schema that the encoded values of the type satisfy. -/
theorem satisfies_schemaOf (ht : Ty.Structural c t) (ha : c.Apart t)
    (h : (schemaOf c t).run.run {} = (.ok schema, r)) :
    (∀ n j, Table.find? r.definitions n = some j → Founded r.definitions j) ∧
      ∀ R, IsSatisfaction r.definitions none R → Founded r.definitions (.obj schema) ∧
        ∀ v, Ty.Encodes c t v → R v (.obj schema) := by
  have hown : ∀ d, c.derive t = .ok d → (∀ e ∈ d.definitions, c.Brings t e.1 e.2) ∧
      ∀ n, c.componentName? t d = some n → c.Brings t n d.schema :=
    fun d hd => ⟨fun e he => ⟨d, hd, .inl he⟩, fun n hn => ⟨d, hd, .inr ⟨hn, rfl⟩⟩⟩
  have hidentity : ∀ u ∈ [t], ∀ u' ∈ [t], c.identity u = c.identity u' → u = u' := by simp
  obtain ⟨hr, -, d, hkept, rfl⟩ := keeps_schemaOf (E := c.Brings t) eq_equivalence
    (fun _ _ _ => Catalog.eq_of_brings ht ha) hidentity List.mem_cons_self
    (faithful_empty Eq c (c.Brings t) [t]) hown h
  have hfind {n identity : String} {s : Schema} (hs : r.Holds Eq n identity s) :
      Table.find? r.definitions n = some (.obj s) := by
    obtain ⟨s', hs', rfl⟩ := hs.schema
    rw [find?_definitions, hs']
    rfl
  refine ⟨fun n j hj => ?_, fun R hR => ?_⟩
  · rw [find?_definitions, Option.map_eq_some_iff] at hj
    obtain ⟨s, hs, rfl⟩ := hj
    obtain ⟨vs, hlists⟩ := Catalog.lists_of_brings ht ha (hr.drawn _ (Table.mem_of_find? hs))
    exact hlists.founded
  · obtain ⟨hfounded, hsat⟩ := Catalog.satisfies_derived ht ha hkept.derived
      (fun e he => hfind (hkept.definitions e he)) hR
    rw [Catalog.handedOut]
    cases hn : c.componentName? t d with
    | none => exact ⟨hfounded, hsat⟩
    | some n =>
        have hfollow := Catalog.follow_pathTo (hfind (hkept.component n hn))
        exact ⟨founded_reference hfollow hfounded,
          fun v hv => satisfies_reference hR hfollow (hsat v hv)⟩

end Registry

/-! ## no false alarms -/

/-- A type that a schema can be derived for has the usual encoder. -/
theorem Catalog.encoder_of_derive (c : Catalog) {t : Ty} {d : Catalog.Derived}
    (hd : c.derive t = .ok d) : c.encoder [] t = .ok (Value.encode c (c.shape t)) := by
  rw [Catalog.derive] at hd
  obtain ⟨⟨⟩, hcheck, -⟩ := bind_eq_ok_iff.1 hd
  simp only [Catalog.encoder, Table.find?_nil, hcheck]

/-- For every structural type for which a fresh registry gives a schema, and from every state of
every random source: a value is drawn, it can be encoded, and its encoded form passes the check
against the schema. -/
theorem check_sample_passes {c : Catalog} {t : Ty} {schema : Schema} {r : Registry}
    (ht : Ty.Structural c t) (ha : c.Apart t)
    (h : (Registry.schemaOf c t).run.run {} = (.ok schema, r)) {σ : Type} [RandomSource σ]
    (rng : σ) :
    ∃ (generate : Draw σ Value) (encode : Encoder) (v : Value) (rng' : σ) (j : Json),
      c.generator [] t = .ok generate ∧ c.encoder [] t = .ok encode ∧
      generate.run rng = .ok (v, rng') ∧ encode v = .ok j ∧
      Check.run (m := Except Fault) r.definitions none j (.obj schema) = .ok none := by
  obtain ⟨generate, hgenerate, hyields⟩ := c.exists_generator (σ := σ) ht none
  obtain ⟨v, rng', hrun, j, hencode, hj⟩ := hyields rng
  obtain ⟨hdefinitions, hsatisfies⟩ := Registry.satisfies_schemaOf ht ha h
  obtain ⟨R, hR, -⟩ : ∃! R, IsSatisfaction r.definitions none R :=
    existsUnique_satisfaction (guarded_of_founded hdefinitions)
  obtain ⟨hfounded, hsat⟩ := hsatisfies R hR
  obtain ⟨d, hd⟩ := Registry.derived_of_schemaOf rfl h
  exact ⟨generate, _, v, rng', j, hgenerate, c.encoder_of_derive hd, hrun, hencode.inShape,
    Check.run_of_satisfies hR hdefinitions hfounded (hsat j hj)⟩

/-- An enumeration of two texts. -/
def colors : Catalog :=
  [{ name := "Color", qualname := "Color"
     form := .enum [("RED", .str "red"), ("BLUE", .str "blue")] none }]

/-- Entries that are a colour, a list, a row or null. -/
def colorTable : Ty :=
  .keyed .dict (.scalar .str) (.union .named [.cls 0, .each .list (.literal [.int 1, .bool true]),
    .tuple [.intBetween 0 255, .scalar .float], .scalar .null])

/-- Whatever is drawn for entries with a reference, a list, a row or null in them passes. -/
theorem colorTable_sample_passes : ∃ schema r,
    (Registry.schemaOf colors colorTable).run.run {} = (.ok schema, r) ∧
    ∀ seed, ∃ (generate : Draw Congruential Value) (encode : Encoder) (v : Value)
      (rng' : Congruential) (j : Json),
      colors.generator [] colorTable = .ok generate ∧
      colors.encoder [] colorTable = .ok encode ∧
      generate.run (Congruential.ofSeed seed) = .ok (v, rng') ∧ encode v = .ok j ∧
      Check.run (m := Except Fault) r.definitions none j (.obj schema) = .ok none := by
  have hok : ((Registry.schemaOf colors colorTable).run.run {}).1.toOption.isSome = true := by
    decide +kernel
  obtain ⟨schema, hschema⟩ := Option.isSome_iff_exists.1 hok
  have h : (Registry.schemaOf colors colorTable).run.run {} =
      (.ok schema, ((Registry.schemaOf colors colorTable).run.run {}).2) :=
    Prod.ext (toOption_eq_some_iff.1 hschema) rfl
  have hcolor : Ty.Structural colors (.cls 0) := .enum rfl (by simp) (by simp [Json.isLabel]) nofun
  have hstructural : Ty.Structural colors colorTable := by
    refine .keyed (.union (by simp) ?_)
    simp only [List.forall_mem_cons, List.not_mem_nil, false_imp_iff, implies_true, and_true]
    refine ⟨hcolor, .each (by simp) (.literal (by simp) (by simp [Json.isLiteral])), ?_,
      .scalar (by simp)⟩
    refine .tuple ?_
    simp only [List.forall_mem_cons, List.not_mem_nil, false_imp_iff, implies_true, and_true]
    exact ⟨.within (by decide), .scalar (by simp)⟩
  have hapart : colors.Apart colorTable := by
    rw [Catalog.Apart]
    decide +kernel
  exact ⟨schema, _, h, fun seed =>
    check_sample_passes hstructural hapart h (Congruential.ofSeed seed)⟩

/-- Lists whose items are told apart as values but not by number. -/
def mergedRows : Ty :=
  .union .named [.each .list (.literal [.int 1, .str "a"]),
    .each .list (.literal [.bool true, .str "a"]), .each .sequence (.literal [.int 1, .str "a"])]

/-- Where alternatives are equal by value and not the same, a sample can fail: the schema has one of
the two lists for both, and a list with true in it is drawn. -/
theorem mergedRows_alarm : ∃ schema r generate encode v rng' j violation,
    (Registry.schemaOf [] mergedRows).run.run {} = (.ok schema, r) ∧
    Catalog.generator (σ := Congruential) [] [] mergedRows = .ok generate ∧
    Catalog.encoder [] [] mergedRows = .ok encode ∧
    generate.run (Congruential.ofSeed 3) = .ok (v, rng') ∧ encode v = .ok j ∧
    Check.run (m := Except Fault) r.definitions none j (.obj schema) = .ok (some violation) := by
  have hok : (do
      let schema ← ((Registry.schemaOf [] mergedRows).run.run {}).1
      let generate ← Catalog.generator (σ := Congruential) [] [] mergedRows
      let encode ← Catalog.encoder [] [] mergedRows
      let sample ← generate.run (Congruential.ofSeed 3)
      let j ← encode sample.1
      Check.run (m := Except Fault) ((Registry.schemaOf [] mergedRows).run.run {}).2.definitions
        none j (.obj schema)).toOption.join.isSome = true := by
    decide +kernel
  obtain ⟨violation, hviolation⟩ := Option.isSome_iff_exists.1 hok
  have h := toOption_eq_some_iff.1 (Option.join_eq_some_iff.1 hviolation)
  obtain ⟨schema, hschema, h⟩ := bind_eq_ok_iff.1 h
  obtain ⟨generate, hgenerate, h⟩ := bind_eq_ok_iff.1 h
  obtain ⟨encode, hencode, h⟩ := bind_eq_ok_iff.1 h
  obtain ⟨⟨v, rng'⟩, hrun, h⟩ := bind_eq_ok_iff.1 h
  obtain ⟨j, hj, hcheck⟩ := bind_eq_ok_iff.1 h
  exact ⟨schema, _, generate, encode, v, rng', j, violation, Prod.ext hschema rfl, hgenerate,
    hencode, hrun, hj, hcheck⟩

end ApiTree
