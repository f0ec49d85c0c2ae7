import ApiTree.Proofs.Schema.Heads
import ApiTree.Proofs.Schema.Naming
import Mathlib.Logic.Relation

/-!
# ApiTree.Proofs.Schema.Dialect

The dialect of schemas that OpenAPI 3.0 reads (`Schema.InDialect`), and the ways to leave it
(`Departure`).  A schema fits some departures throughout when neither it nor a schema in it, at any
depth, leaves the dialect in another way (`Schema.FitsThroughout`).  Putting schemas together adds
the departures of the parts and those of the construction, and no others: one lemma for each
construction.
-/

namespace ApiTree

open Relation

/-- A way to leave the dialect. -/
inductive Departure where
  /-- An exclusive bound that is no flag beside an inclusive one. -/
  | exclusiveBound
  /-- The type of null. -/
  | nullType
  /-- An array with a schema for each place. -/
  | row
  /-- An array without a schema of its items. -/
  | noItems
  /-- An object with a schema of its keys. -/
  | keyNames
  /-- An object with schemas by patterns of the keys. -/
  | keyPattern
deriving DecidableEq, Repr

namespace Schema

/-! ## schemas in schemas -/

/-- The keywords that stand before values. -/
def valued : List String := ["default", "enum"]

/-- The keywords that stand before tables in which names lead to schemas. -/
def tabled : List String := ["properties", "patternProperties", "discriminator"]

/-- A schema stands under a keyword: as what the keyword says, as one of several, under the name of
a property, or under a value in the mapping of a discriminator. -/
inductive Under : String → Json → Schema → Prop where
  | alone {k : String} {s : Schema} (hvalued : k ∉ valued) (htabled : k ∉ tabled) :
      Under k (.obj s) s
  | listed {k : String} {xs : List Json} {s : Schema} (hvalued : k ∉ valued) (h : .obj s ∈ xs) :
      Under k (.arr xs) s
  | property {k n : String} {ms : Json.Members} {s : Schema}
      (hk : k = "properties" ∨ k = "patternProperties") (h : (n, .obj s) ∈ ms) : Under k (.obj ms) s
  | mapped {n : String} {d ms : Json.Members} {s : Schema} (hmapping : ("mapping", .obj ms) ∈ d)
      (h : (n, .obj s) ∈ ms) : Under "discriminator" (.obj d) s

/-- A schema stands in another, under one of its keywords. -/
def Inner (s t : Schema) : Prop := ∃ e ∈ s, Under e.1 e.2 t

/-- A schema stands in another, at any depth. -/
def Within (s t : Schema) : Prop := ReflTransGen Inner s t

/-! ## the dialect -/

/-- The keywords of other dialects. -/
def foreignKeywords : List String := ["const", "prefixItems", "propertyNames", "patternProperties"]

/-- A schema in the dialect: exclusive bounds are flags, the type is one name and not that of null,
arrays have items, and there are no keywords of other dialects. -/
structure InDialect (s : Schema) : Prop where
  exclusive : ∀ e ∈ s, e.1 = "exclusiveMinimum" ∨ e.1 = "exclusiveMaximum" → ∃ b, e.2 = .bool b
  type : ∀ j, ("type", j) ∈ s → ∃ x, j = .str x ∧ x ≠ "null"
  keywords : ∀ k ∈ foreignKeywords, k ∉ Table.keys s
  items : ("type", .str "array") ∈ s → "items" ∈ Table.keys s

/-- The schema itself leaves the dialect in some way. -/
def Departs (s : Schema) : Departure → Prop
  | .exclusiveBound =>
    ∃ e ∈ s, (e.1 = "exclusiveMinimum" ∨ e.1 = "exclusiveMaximum") ∧ ∀ b, e.2 ≠ .bool b
  | .nullType => ("type", .str "null") ∈ s
  | .row => "prefixItems" ∈ Table.keys s
  | .noItems => ("type", .str "array") ∈ s ∧ "items" ∉ Table.keys s
  | .keyNames => "propertyNames" ∈ Table.keys s
  | .keyPattern => "patternProperties" ∈ Table.keys s

/-- A schema is in the dialect if its type is a text, it is no constant and it departs in no way. -/
theorem inDialect_iff {s : Schema} : s.InDialect ↔
    (∀ j, ("type", j) ∈ s → ∃ x, j = .str x) ∧ "const" ∉ Table.keys s ∧ ∀ x, ¬ s.Departs x := by
  constructor
  · intro h
    refine ⟨fun j hj => (h.type j hj).imp fun _ hx => hx.1, h.keywords _ (by decide), ?_⟩
    intro x hx
    cases x with
    | exclusiveBound =>
        obtain ⟨e, he, hk, hflag⟩ := hx
        obtain ⟨b, hb⟩ := h.exclusive e he hk
        exact hflag b hb
    | nullType =>
        obtain ⟨x, hx, hne⟩ := h.type _ hx
        exact hne (Json.str.inj hx).symm
    | row => exact h.keywords _ (by decide) hx
    | noItems => exact hx.2 (h.items hx.1)
    | keyNames => exact h.keywords _ (by decide) hx
    | keyPattern => exact h.keywords _ (by decide) hx
  · rintro ⟨htext, hconst, hnone⟩
    refine ⟨fun e he hk => ?_, fun j hj => ?_, fun k hk => ?_, fun harray => ?_⟩
    · by_contra hflag
      exact hnone .exclusiveBound ⟨e, he, hk, not_exists.1 hflag⟩
    · obtain ⟨x, rfl⟩ := htext j hj
      refine ⟨x, rfl, ?_⟩
      rintro rfl
      exact hnone .nullType hj
    · simp only [foreignKeywords, List.mem_cons, List.not_mem_nil, or_false] at hk
      rcases hk with rfl | rfl | rfl | rfl
      exacts [hconst, hnone .row, hnone .keyNames, hnone .keyPattern]
    · by_contra hitems
      exact hnone .noItems ⟨harray, hitems⟩

/-! ## schemas that leave the dialect in some ways only -/

/-- What a schema may say under a keyword, if it leaves the dialect in some ways only. -/
structure May (K : List Departure) (k : String) (v : Json) : Prop where
  notConst : k ≠ "const"
  type : k = "type" → ∃ x, v = .str x ∧ (x = "null" → .nullType ∈ K)
  exclusive : k = "exclusiveMinimum" ∨ k = "exclusiveMaximum" → (∃ b, v = .bool b) ∨
    .exclusiveBound ∈ K
  row : k = "prefixItems" → .row ∈ K
  keyNames : k = "propertyNames" → .keyNames ∈ K
  keyPattern : k = "patternProperties" → .keyPattern ∈ K

/-- A schema that leaves the dialect in some ways only.  A reference has no type beside it. -/
structure Fits (K : List Departure) (s : Schema) : Prop where
  may : ∀ e ∈ s, May K e.1 e.2
  items : ("type", .str "array") ∈ s → "items" ∈ Table.keys s ∨ .noItems ∈ K
  -- what a reference repeats of its definition goes, which must not leave an array without items
  alone : "$ref" ∈ Table.keys s → "type" ∉ Table.keys s

/-- A schema that leaves the dialect in some ways only, as do the schemas in it. -/
def FitsThroughout (K : List Departure) (s : Schema) : Prop := ∀ t, Within s t → Fits K t

variable {K : List Departure} {s s' t : Schema} {k : String} {v : Json}

/-- In a schema that fits a type is a text. -/
theorem Fits.text (h : Fits K s) (hv : ("type", v) ∈ s) : ∃ x, v = .str x :=
  ((h.may _ hv).type rfl).imp fun _ hx => hx.1

/-- A schema that fits has no constant. -/
theorem Fits.not_const (h : Fits K s) : "const" ∉ Table.keys s := by
  intro hmem
  obtain ⟨e, he, hk⟩ := List.mem_map.1 hmem
  exact (h.may e he).notConst hk

/-- A schema that fits departs in the given ways only. -/
theorem Fits.mem_of_departs (h : Fits K s) {x : Departure} (hx : s.Departs x) : x ∈ K := by
  cases x with
  | exclusiveBound =>
      obtain ⟨e, he, hk, hflag⟩ := hx
      exact ((h.may e he).exclusive hk).resolve_left fun hb => hb.elim hflag
  | nullType =>
      obtain ⟨x, hx, hnull⟩ := (h.may _ hx).type rfl
      exact hnull (Json.str.inj hx).symm
  | row =>
      obtain ⟨e, he, hk⟩ := List.mem_map.1 hx
      exact (h.may e he).row hk
  | noItems => exact (h.items hx.1).resolve_left hx.2
  | keyNames =>
      obtain ⟨e, he, hk⟩ := List.mem_map.1 hx
      exact (h.may e he).keyNames hk
  | keyPattern =>
      obtain ⟨e, he, hk⟩ := List.mem_map.1 hx
      exact (h.may e he).keyPattern hk

/-- A schema that fits throughout fits at its top. -/
theorem FitsThroughout.fits (h : FitsThroughout K s) : Fits K s := h s .refl

/-- What stands in a schema that fits throughout does so too. -/
theorem FitsThroughout.inner (h : FitsThroughout K s) (ht : Inner s t) : FitsThroughout K t :=
  fun u hu => h u (.head ht hu)

/-- A schema fits throughout if it fits at its top and all that stands in it does. -/
theorem fitsThroughout_iff :
    FitsThroughout K s ↔ Fits K s ∧ ∀ t, Inner s t → FitsThroughout K t := by
  refine ⟨fun h => ⟨h.fits, fun t => h.inner⟩, fun h t ht => ?_⟩
  rcases ht.cases_head with rfl | ⟨u, hu, ht⟩
  · exact h.1
  · exact h.2 u hu t ht

/-! ## what stands under keywords -/

/-- The keywords by which a schema can leave the dialect. -/
def departing : List String :=
  ["const", "type", "exclusiveMinimum", "exclusiveMaximum", "prefixItems", "propertyNames",
    "patternProperties"]

/-- A keyword with what a schema says under it, where schemas in it leave the dialect in some ways
only. -/
structure MayHold (K : List Departure) (k : String) (v : Json) : Prop where
  may : May K k v
  inner : ∀ t, Under k v t → FitsThroughout K t

/-- A keyword with which nothing departs may have any value. -/
theorem May.of_not_mem (h : k ∉ departing) : May K k v := by
  simp only [departing, List.mem_cons, List.not_mem_nil, or_false, not_or] at h
  obtain ⟨hconst, htype, hmin, hmax, hrow, hnames, hpattern⟩ := h
  exact ⟨hconst, fun hk => absurd hk htype, fun hk => absurd hk (not_or.2 ⟨hmin, hmax⟩),
    fun hk => absurd hk hrow, fun hk => absurd hk hnames, fun hk => absurd hk hpattern⟩

/-- Where rows are admitted, `prefixItems` may have any value. -/
theorem May.row_of_mem (h : .row ∈ K) : May K "prefixItems" v :=
  ⟨by simp, by simp, by simp, fun _ => h, by simp, by simp⟩

/-- Where names of keys are admitted, `propertyNames` may have any value. -/
theorem May.keyNames_of_mem (h : .keyNames ∈ K) : May K "propertyNames" v :=
  ⟨by simp, by simp, by simp, by simp, fun _ => h, by simp⟩

/-- Where patterns of keys are admitted, `patternProperties` may have any value. -/
theorem May.keyPattern_of_mem (h : .keyPattern ∈ K) : May K "patternProperties" v :=
  ⟨by simp, by simp, by simp, by simp, by simp, fun _ => h⟩

/-- Where exclusive bounds are admitted, they may be numbers. -/
theorem May.exclusive_of_mem (hk : k = "exclusiveMinimum" ∨ k = "exclusiveMaximum")
    (h : .exclusiveBound ∈ K) : May K k v := by
  rcases hk with rfl | rfl <;> exact ⟨by simp, by simp, fun _ => .inr h, by simp, by simp, by simp⟩

/-- A value that holds nothing holds no schema. -/
theorem not_under (hobj : ∀ ms, v ≠ .obj ms) (harr : ∀ xs, v ≠ .arr xs) : ¬ Under k v t := by
  rintro (_ | _ | _ | _)
  exacts [hobj _ rfl, harr _ rfl, hobj _ rfl, hobj _ rfl]

/-- A keyword with which nothing departs may hold a text. -/
theorem MayHold.str (h : k ∉ departing) (x : String) : MayHold K k (.str x) :=
  ⟨.of_not_mem h, fun _ hu => absurd hu (not_under nofun nofun)⟩

/-- A keyword with which nothing departs may hold a truth value. -/
theorem MayHold.bool (h : k ∉ departing) (b : Bool) : MayHold K k (.bool b) :=
  ⟨.of_not_mem h, fun _ hu => absurd hu (not_under nofun nofun)⟩

/-- No schema stands in a number. -/
theorem not_under_number (n : Number) : ¬ Under k n.toJson t := by
  cases n <;> exact not_under nofun nofun

/-- A keyword with which nothing departs may hold a number. -/
theorem MayHold.number (h : k ∉ departing) (n : Number) : MayHold K k n.toJson :=
  ⟨.of_not_mem h, fun _ hu => absurd hu (not_under_number n)⟩

/-- Values are no schemas. -/
theorem MayHold.value (h : k ∈ valued) (v : Json) : MayHold K k v := by
  simp only [valued, List.mem_cons, List.not_mem_nil, or_false] at h
  refine ⟨.of_not_mem ?_, fun t hu => ?_⟩
  · rcases h with rfl | rfl <;> decide
  · cases hu with
    | alone hvalued => simp_all [valued]
    | listed hvalued => simp_all [valued]
    | property hk => rcases h with rfl | rfl <;> simp at hk
    | mapped => simp at h

/-- A keyword that may have a schema may hold one that fits throughout. -/
theorem MayHold.obj (h : May K k (.obj s)) (htabled : k ∉ tabled) (hs : FitsThroughout K s) :
    MayHold K k (.obj s) := by
  refine ⟨h, fun t hu => ?_⟩
  cases hu with
  | alone => exact hs
  | property hk => rcases hk with rfl | rfl <;> simp [tabled] at htabled
  | mapped => simp [tabled] at htabled

/-- A keyword that may have a list may hold one of schemas that fit throughout. -/
theorem MayHold.arr {xs : List Json} (h : May K k (.arr xs))
    (hxs : ∀ s, .obj s ∈ xs → FitsThroughout K s) : MayHold K k (.arr xs) := by
  refine ⟨h, fun t hu => ?_⟩
  cases hu with
  | listed _ hmem => exact hxs t hmem

/-- A keyword that may have a table may hold one of schemas that fit throughout. -/
theorem MayHold.table {ms : Json.Members} (h : May K k (.obj ms)) (hk : k ∈ tabled)
    (hdiscriminator : k ≠ "discriminator")
    (hms : ∀ n s, (n, .obj s) ∈ ms → FitsThroughout K s) : MayHold K k (.obj ms) := by
  refine ⟨h, fun t hu => ?_⟩
  cases hu with
  | alone _ htabled => exact absurd hk htabled
  | property _ hmem => exact hms _ t hmem
  | mapped => exact absurd rfl hdiscriminator

/-- A type of values may be held, and that of null where it is admitted. -/
theorem mayHold_type {x : String} (h : x = "null" → .nullType ∈ K) : MayHold K "type" (.str x) :=
  ⟨⟨by decide, fun _ => ⟨x, rfl, h⟩, by simp, by simp, by simp, by simp⟩,
    fun _ hu => absurd hu (not_under nofun nofun)⟩

/-- A schema that fits throughout holds what may be held. -/
theorem FitsThroughout.mayHold (h : FitsThroughout K s) {e : String × Json} (he : e ∈ s) :
    MayHold K e.1 e.2 :=
  ⟨h.fits.may e he, fun _ hu => h.inner ⟨e, he, hu⟩⟩

/-- A schema is fitting throughout if what it says under each keyword is. -/
theorem FitsThroughout.of_entries (hentries : ∀ e ∈ s, MayHold K e.1 e.2)
    (hitems : ("type", .str "array") ∈ s → "items" ∈ Table.keys s ∨ .noItems ∈ K)
    (halone : "$ref" ∈ Table.keys s → "type" ∉ Table.keys s) : FitsThroughout K s :=
  fitsThroughout_iff.2 ⟨⟨fun e he => (hentries e he).may, hitems, halone⟩,
    fun t ⟨e, he, hu⟩ => (hentries e he).inner t hu⟩

theorem fitsThroughout_nil : FitsThroughout K [] :=
  .of_entries (by simp) (by simp) (by simp)

/-! ## schemas with more or less said -/

/-- Setting a keyword to what it may hold keeps the schema fitting throughout. -/
theorem FitsThroughout.put (h : FitsThroughout K s) (hv : MayHold K k v) (htype : k ≠ "type")
    (href : k ≠ "$ref") : FitsThroughout K (Table.put s k v) := by
  refine .of_entries (fun e he => ?_) (fun harray => ?_) fun hr => ?_
  · rcases Table.mem_of_mem_put he with he | rfl
    exacts [h.mayHold he, hv]
  · refine (h.fits.items ?_).imp_left fun hitems => (Table.mem_keys_put _ _ _ _).2 (.inl hitems)
    exact (Table.mem_of_mem_put harray).resolve_right fun heq => htype (Prod.mk.inj heq).1.symm
  · rw [Table.mem_keys_put] at hr ⊢
    exact not_or.2 ⟨h.fits.alone (hr.resolve_right (Ne.symm href)), Ne.symm htype⟩

/-- Setting a text where there is one keeps the schema fitting throughout. -/
theorem FitsThroughout.putText (h : FitsThroughout K s) (hk : k ∉ departing) (href : k ≠ "$ref")
    (x : Option String) : FitsThroughout K (s.putText k x) := by
  cases x with
  | none => exact h
  | some x => exact h.put (.str hk x) (fun heq => hk (heq ▸ by decide)) href

/-- Setting a number where there is one keeps the schema fitting throughout. -/
theorem FitsThroughout.putNumber (h : FitsThroughout K s) (hk : k ∉ departing) (href : k ≠ "$ref")
    (n : Option Number) : FitsThroughout K (s.putNumber k n) := by
  cases n with
  | none => exact h
  | some n => exact h.put (.number hk n) (fun heq => hk (heq ▸ by decide)) href

/-- An exclusive bound that is a number departs. -/
theorem FitsThroughout.putExclusive (h : FitsThroughout K s)
    (hk : k = "exclusiveMinimum" ∨ k = "exclusiveMaximum") {n : Option Number}
    (hn : n.isSome → .exclusiveBound ∈ K) : FitsThroughout K (s.putNumber k n) := by
  cases n with
  | none => exact h
  | some n =>
      have hmay : May K k n.toJson := .exclusive_of_mem hk (hn rfl)
      refine h.put ⟨hmay, fun t hu => absurd hu (not_under_number n)⟩ ?_ ?_ <;>
        rcases hk with rfl | rfl <;> simp

/-- With less said, and no array without items, a schema fits still. -/
theorem FitsThroughout.of_subset (h : FitsThroughout K s) (hsub : s' ⊆ s)
    (hitems : "type" ∈ Table.keys s' → "items" ∈ Table.keys s → "items" ∈ Table.keys s') :
    FitsThroughout K s' := by
  have hkeys : Table.keys s' ⊆ Table.keys s := List.map_subset _ hsub
  refine .of_entries (fun e he => h.mayHold (hsub he)) (fun harray => ?_) fun href htype => ?_
  · exact (h.fits.items (hsub harray)).imp_left (hitems (List.mem_map_of_mem harray))
  · exact h.fits.alone (hkeys href) (hkeys htype)

/-- Taking away another keyword than `items` keeps the schema fitting throughout. -/
theorem FitsThroughout.erase (h : FitsThroughout K s) (hk : k ≠ "items") :
    FitsThroughout K (Table.erase s k) := by
  refine h.of_subset (fun e he => List.mem_of_mem_filter he) fun _ hitems => ?_
  obtain ⟨e, he, heq⟩ := List.mem_map.1 hitems
  exact List.mem_map.2 ⟨e, List.mem_filter.2 ⟨he, by simp [heq, Ne.symm hk]⟩, heq⟩

/-- Without its titles a schema still fits throughout. -/
theorem FitsThroughout.untitled (h : FitsThroughout K s) : FitsThroughout K s.untitled :=
  h.erase (by decide)

/-- With more said under keywords that are no types and no references, a schema fits still. -/
theorem FitsThroughout.append (h : FitsThroughout K s) (hmore : ∀ e ∈ s', MayHold K e.1 e.2)
    (hplain : ∀ k ∈ ["type", "$ref"], k ∉ Table.keys s') : FitsThroughout K (s ++ s') := by
  have htype := hplain "type" (by simp)
  have href := hplain "$ref" (by simp)
  refine .of_entries (fun e he => ?_) (fun harray => ?_) fun hr => ?_
  · exact (List.mem_append.1 he).elim h.mayHold (hmore e)
  · have harray := (List.mem_append.1 harray).resolve_right fun he => htype (List.mem_map_of_mem he)
    rw [Table.keys, List.map_append]
    exact (h.fits.items harray).imp_left (List.mem_append_left _)
  · rw [Table.keys, List.map_append, List.mem_append] at hr ⊢
    exact not_or.2 ⟨h.fits.alone (hr.resolve_right href), htype⟩

/-! ## schemas made of schemas -/

/-- The schema of a type of values fits, unless it is that of arrays. -/
theorem fitsThroughout_ofType {name : String} (hnull : name = "null" → .nullType ∈ K)
    (harray : name ≠ "array") : FitsThroughout K (ofType name) := by
  refine .of_entries (fun e he => ?_) (fun h => ?_) (by simp [ofType])
  · obtain rfl := List.mem_singleton.1 he
    exact mayHold_type hnull
  · simp [ofType, Ne.symm harray] at h

/-- A schema that also admits null fits throughout if the schema does. -/
theorem fitsThroughout_nullable (h : FitsThroughout K s) : FitsThroughout K s.nullable := by
  rw [nullable]
  split
  · refine .of_entries ?_ (by simp) (by simp)
    simp only [List.forall_mem_cons, List.not_mem_nil, false_implies, implies_true, and_true]
    refine ⟨.arr (.of_not_mem (by decide)) fun t ht => ?_, .bool (by decide) true⟩
    obtain rfl := Json.obj.inj (List.mem_singleton.1 ht)
    exact h
  · exact h.put (.bool (by decide) true) (by decide) (by decide)

/-- The ways in which the name of a type departs where nothing is said of items. -/
def departuresOfType : Option String → List Departure
  | some "null" => [.nullType]
  | some "array" => [.noItems]
  | _ => []

/-- Fixed values depart by their type. -/
theorem fitsThroughout_enum (vs : List Json) {type : Option String}
    (h : departuresOfType type ⊆ K) :
    FitsThroughout K (Schema.putText [("enum", .arr vs)] "type" type) := by
  have henum : MayHold K "enum" (.arr vs) := .value (by decide) _
  cases type with
  | none =>
      refine .of_entries (fun e he => ?_) (by simp [Schema.putText]) (by simp [Schema.putText])
      obtain rfl := List.mem_singleton.1 he
      exact henum
  | some x =>
      show FitsThroughout K [("enum", .arr vs), ("type", .str x)]
      refine .of_entries ?_ (fun harray => ?_) (by simp)
      · simp only [List.forall_mem_cons, List.not_mem_nil, false_implies, implies_true, and_true]
        exact ⟨henum, mayHold_type fun hnull => h (by simp [hnull, departuresOfType])⟩
      · obtain rfl : "array" = x := by simpa using harray
        exact .inr (h (by simp [departuresOfType]))

/-- The alternatives of a schema that fits throughout do so too. -/
theorem fitsThroughout_alternatives (h : FitsThroughout K s) (ht : .obj t ∈ alternatives s) :
    FitsThroughout K t := by
  rcases alternatives_cases s with ⟨xs, rfl, hs⟩ | hs
  · exact h.inner ⟨_, List.mem_singleton_self _, .listed (k := "anyOf") (by decide) (hs ▸ ht)⟩
  · rw [hs, List.mem_singleton, Json.obj.injEq] at ht
    exact ht ▸ h

/-- A choice of schemas fits throughout if each of them does. -/
theorem fitsThroughout_anyOf {ss : List Schema} (h : ∀ s ∈ ss, FitsThroughout K s) :
    FitsThroughout K (anyOf ss) := by
  have hall : ∀ t, .obj t ∈ latest (ss.flatMap alternatives) → FitsThroughout K t := by
    intro t ht
    obtain ⟨s, hs, ht⟩ := List.mem_flatMap.1 (latest_subset _ ht)
    exact fitsThroughout_alternatives (h s hs) ht
  rw [anyOf]
  split
  · next t heq => exact hall t (by simp [heq])
  · refine .of_entries (fun e he => ?_) (by simp) (by simp)
    obtain rfl := List.mem_singleton.1 he
    exact .arr (k := "anyOf") (.of_not_mem (by decide)) hall

/-- The members of a union are told apart by schemas of their own, which the mapping may hold. -/
theorem fitsThroughout_oneOf (property : String) {members : List (List Json × Schema)}
    (h : ∀ m ∈ members, FitsThroughout K m.2) : FitsThroughout K (oneOf property members) := by
  rw [oneOf]
  generalize hof : Table.ofList (members.flatMap _ : List (String × Schema)) = choices
  have hchoices : ∀ e ∈ choices, FitsThroughout K e.2 := by
    intro e he
    obtain ⟨m, hm, he⟩ := List.mem_flatMap.1 (Table.mem_of_mem_ofList (hof ▸ he))
    obtain ⟨v, -, rfl⟩ := List.mem_map.1 he
    exact h m hm
  refine .of_entries ?_ (by simp) (by simp)
  simp only [List.forall_mem_cons, List.not_mem_nil, false_implies, implies_true, and_true]
  refine ⟨.arr (.of_not_mem (by decide)) fun t ht => ?_, .of_not_mem (by decide), fun t hu => ?_⟩
  · obtain ⟨e, he, heq⟩ := List.mem_map.1 (latest_subset _ ht)
    exact Json.obj.inj heq ▸ hchoices e he
  · cases hu with
    | alone _ htabled => simp [tabled] at htabled
    | property hk => simp at hk
    | mapped hmapping hmem =>
        obtain rfl := by simpa using hmapping
        obtain ⟨e, he, heq⟩ := List.mem_map.1 hmem
        -- a value leads to the reference that its member is, or to the member
        obtain ⟨-, heq⟩ := Prod.mk.inj heq
        cases href : Table.find? e.2 "$ref" with
        | none =>
            rw [href] at heq
            exact Json.obj.inj heq ▸ hchoices e he
        | some j =>
            rw [href] at heq
            obtain rfl : j = .obj t := heq
            exact (hchoices e he).inner
              ⟨_, Table.mem_of_find? href, .alone (k := "$ref") (by decide) (by decide)⟩

/-- An array fits throughout if its items do. -/
theorem fitsThroughout_arrayOf (h : FitsThroughout K s) (unique : Bool) :
    FitsThroughout K (arrayOf s unique) := by
  refine .append (.of_entries ?_ (by simp) (by simp)) ?_ (by cases unique <;> simp)
  · simp only [List.forall_mem_cons, List.not_mem_nil, false_implies, implies_true, and_true]
    exact ⟨mayHold_type (by simp), .obj (.of_not_mem (by decide)) (by decide) h⟩
  · cases unique with
    | false => simp
    | true => exact List.forall_mem_singleton.2 (.bool (k := "uniqueItems") (by decide) true)

/-- A row is an array without a schema of its items, and with schemas for the places, if there are
some. -/
theorem fitsThroughout_rowOf {ss : List Schema} (h : ∀ s ∈ ss, FitsThroughout K s)
    (hitems : .noItems ∈ K) (hrow : ss ≠ [] → .row ∈ K) : FitsThroughout K (rowOf ss) := by
  refine .append (.of_entries ?_ (fun _ => .inr hitems) (by simp)) ?_ (by cases ss <;> simp)
  · simp only [List.forall_mem_cons, List.not_mem_nil, false_implies, implies_true, and_true]
    exact ⟨mayHold_type (by simp), .number (by decide) (.int ss.length),
      .number (by decide) (.int ss.length)⟩
  · cases ss with
    | nil => simp
    | cons s ss =>
        refine List.forall_mem_singleton.2 (.arr (.row_of_mem (hrow (by simp))) fun t ht => ?_)
        obtain ⟨u, hu, heq⟩ := List.mem_map.1 ht
        exact Json.obj.inj heq ▸ h u hu

/-! ## keys -/

/-- What the schema of entries says of their keys, the pattern and the title apart. -/
def saidOfKeys (keys : Schema) : Schema :=
  if Table.has keys "$ref" then keys else (Table.erase keys "pattern").erase "title"

/-- The pattern of the keys, which a declared type does not show. -/
def patternOfKeys? (keys : Schema) : Option Json :=
  if Table.has keys "$ref" then none else Table.find? keys "pattern"

/-- The schema of the keys shows: they are of a declared type, or more is said than that they are
texts. -/
def showsKeys (keys : Schema) : Bool :=
  Table.has keys "$ref" ||
    ((Table.find? (saidOfKeys keys) "type").any (·.looseEq (.str "string")) &&
      1 < (saidOfKeys keys).length)

/-- A map has its type, and then what is said of its values and of its keys. -/
theorem entriesOf_eq (keys values : Schema) : entriesOf keys values =
    [("type", .str "object")] ++
      (match patternOfKeys? keys with
        | some (.str p) => [("patternProperties", .obj [(p, .obj (Table.erase values "title"))])]
        | _ => [("additionalProperties", if (Table.erase values "title").isEmpty then .bool true
            else .obj (Table.erase values "title"))]) ++
      if showsKeys keys then [("propertyNames", .obj (Table.erase (saidOfKeys keys) "type"))]
        else [] := rfl

/-- The ways in which entries depart by what is said of their keys. -/
def departuresOfKeys (keys : Schema) : List Departure :=
  (match patternOfKeys? keys with
    | some (.str _) => [.keyPattern]
    | _ => []) ++ if showsKeys keys then [.keyNames] else []

/-- What is said of keys fits throughout if their schema does. -/
theorem fitsThroughout_saidOfKeys (h : FitsThroughout K s) : FitsThroughout K (saidOfKeys s) := by
  rw [saidOfKeys]
  split
  · exact h
  · exact (h.erase (by decide)).erase (by decide)

/-- The schema of the keys counts where it shows. -/
theorem fitsThroughout_entriesOf {keys values : Schema} (h : departuresOfKeys keys ⊆ K)
    (hkeys : showsKeys keys = true → FitsThroughout K keys) (hvalues : FitsThroughout K values) :
    FitsThroughout K (entriesOf keys values) := by
  have hobject : FitsThroughout K [("type", .str "object")] :=
    fitsThroughout_ofType (by simp) (by simp)
  have hsaid : FitsThroughout K (Table.erase values "title") := hvalues.erase (by decide)
  obtain ⟨hpattern, hnames⟩ := List.append_subset.1 h
  rw [entriesOf_eq]
  refine .append (.append hobject ?_ ?_) ?_ ?_
  · split
    · next p hp =>
        have hmay : .keyPattern ∈ K := hpattern (by simp [hp])
        refine List.forall_mem_singleton.2 (.table (.keyPattern_of_mem hmay) (by simp [tabled])
          (by simp) fun n s hs => ?_)
        obtain ⟨-, rfl⟩ := by simpa using hs
        exact hsaid
    · refine List.forall_mem_singleton.2 ?_
      cases (Table.erase values "title").isEmpty with
      | true => exact .bool (k := "additionalProperties") (by decide) true
      | false =>
          exact .obj (k := "additionalProperties") (.of_not_mem (by decide)) (by decide) hsaid
  · split <;> simp
  · split
    · next hshows =>
        have hmay : .keyNames ∈ K := hnames (by simp [hshows])
        refine List.forall_mem_singleton.2 (.obj (.keyNames_of_mem hmay) (by simp [tabled]) ?_)
        exact (fitsThroughout_saidOfKeys (hkeys hshows)).erase (by decide)
    · simp
  · split <;> simp

/-! ## renamed references -/

open Reference (Place renamedMembers renamedUnder)

variable {name : String → Option String} {p : Place}

/-- A text that is no reference is not the result of renaming another. -/
theorem eq_of_renamedUnder_eq_str {x : String} (h : renamedUnder name p k v = .str x)
    (hx : x.toList.head? ≠ some '#') : v = .str x := by
  cases v with
  | str y =>
      simp only [renamedUnder, Reference.renamedText] at h
      split at h
      · cases htarget : (Reference.target? y).bind name with
        | none => rwa [htarget] at h
        | some n =>
            rw [htarget, Json.str.injEq] at h
            have hpath : (Reference.pathTo n).toList.head? = some '#' := by
              simp [Reference.pathTo, Reference.stem]
            exact absurd (h ▸ hpath) hx
      · exact h
  | _ => simp [renamedUnder, Reference.renamed] at h

/-- Renaming references makes an object of an object only. -/
theorem exists_of_renamedUnder_eq_obj (h : renamedUnder name p k v = .obj t) :
    ∃ s, v = .obj s ∧ t = renamedMembers name (p.under k) s := by
  cases v with
  | obj s => exact ⟨s, rfl, by simpa [renamedUnder, Reference.renamed] using h.symm⟩
  | _ => simp [renamedUnder, Reference.renamed] at h

/-- Renaming references keeps the keywords of a schema. -/
theorem exists_of_mem_renamedMembers {j : Json} (h : (k, j) ∈ renamedMembers name p s) :
    ∃ v, (k, v) ∈ s ∧ renamedUnder name p k v = j := by
  rw [Reference.renamedMembers_eq] at h
  obtain ⟨⟨k', v⟩, hv, heq⟩ := List.mem_map.1 h
  obtain ⟨rfl, rfl⟩ := Prod.mk.inj heq
  exact ⟨v, hv, rfl⟩

/-- The schemas under a keyword with references renamed are renamed themselves. -/
theorem exists_of_under_renamed (h : Under k (renamedUnder name p k v) t) :
    ∃ s q, Under k v s ∧ t = renamedMembers name q s := by
  generalize hw : renamedUnder name p k v = w at h
  cases h with
  | alone hvalued htabled =>
      obtain ⟨s, rfl, ht⟩ := exists_of_renamedUnder_eq_obj hw
      exact ⟨s, _, .alone hvalued htabled, ht⟩
  | listed hvalued hmem =>
      cases v with
      | arr xs =>
          obtain rfl := Json.arr.inj hw
          rw [Reference.renamedItems_eq] at hmem
          obtain ⟨x, hx, heq⟩ := List.mem_map.1 hmem
          cases x with
          | obj s => exact ⟨s, .schema, .listed hvalued hx, (Json.obj.inj heq).symm⟩
          | _ => simp [Reference.renamed] at heq
      | _ => simp [renamedUnder, Reference.renamed] at hw
  | property hk hmem =>
      obtain ⟨ms, rfl, rfl⟩ := exists_of_renamedUnder_eq_obj hw
      obtain ⟨v, hv, heq⟩ := exists_of_mem_renamedMembers hmem
      obtain ⟨s, rfl, ht⟩ := exists_of_renamedUnder_eq_obj heq
      exact ⟨s, _, .property hk hv, ht⟩
  | mapped hmapping hmem =>
      obtain ⟨d, rfl, rfl⟩ := exists_of_renamedUnder_eq_obj hw
      obtain ⟨v, hv, heq⟩ := exists_of_mem_renamedMembers hmapping
      obtain ⟨ms, rfl, rfl⟩ := exists_of_renamedUnder_eq_obj heq
      obtain ⟨w, hw, heq⟩ := exists_of_mem_renamedMembers hmem
      obtain ⟨s, rfl, ht⟩ := exists_of_renamedUnder_eq_obj heq
      exact ⟨s, _, .mapped hv hw, ht⟩

/-- Renaming references keeps a schema fitting. -/
theorem Fits.renamed (h : Fits K s) : Fits K (renamedMembers name p s) := by
  have hkeys : Table.keys (renamedMembers name p s) = Table.keys s := by
    rw [Reference.renamedMembers_eq, Table.keys_mapValues]
  refine ⟨fun ⟨k, j⟩ he => ?_, fun harray => ?_, hkeys ▸ h.alone⟩
  · obtain ⟨v, hv, rfl⟩ := exists_of_mem_renamedMembers he
    have hmay := h.may _ hv
    refine { hmay with type := fun hk => ?_, exclusive := fun hk => ?_ }
    · obtain ⟨x, rfl, hnull⟩ := hmay.type hk
      refine ⟨_, rfl, fun heq => hnull ?_⟩
      have hsame : renamedUnder name p k (.str x) = .str "null" := congrArg Json.str heq
      exact Json.str.inj (eq_of_renamedUnder_eq_str hsame (by decide))
    · refine (hmay.exclusive hk).imp_left ?_
      rintro ⟨b, rfl⟩
      exact ⟨b, rfl⟩
  · obtain ⟨v, hv, heq⟩ := exists_of_mem_renamedMembers harray
    obtain rfl := eq_of_renamedUnder_eq_str heq (by decide)
    exact hkeys ▸ h.items hv

/-- Renamed references leave the dialect as it is. -/
theorem FitsThroughout.renamed (h : FitsThroughout K s) :
    FitsThroughout K (renamedMembers name p s) := by
  suffices hway : ∀ t, Within (renamedMembers name p s) t →
      ∃ u q, Within s u ∧ t = renamedMembers name q u by
    intro t ht
    obtain ⟨u, q, hu, rfl⟩ := hway t ht
    exact (h u hu).renamed
  -- a way in the renamed schema is a way in the schema, step by step; the place changes on it
  intro t ht
  induction ht with
  | refl => exact ⟨s, p, .refl, rfl⟩
  | tail _ hstep ih =>
      obtain ⟨u, q, hu, rfl⟩ := ih
      obtain ⟨⟨k, j⟩, he, hunder⟩ := hstep
      obtain ⟨v, hv, rfl⟩ := exists_of_mem_renamedMembers he
      obtain ⟨w, r, hw, rfl⟩ := exists_of_under_renamed hunder
      exact ⟨w, r, hu.tail ⟨_, hv, hw⟩, rfl⟩

end Schema
end ApiTree
