import ApiTree.Proofs.Schema.Closure
import ApiTree.Proofs.Schema.Dialect

/-!
# ApiTree.Proofs.Shape.Dialect

The ways in which the schemas of types leave the dialect, read off the types (`Shape.departures`,
`Catalog.departures`).  What is derived for a type leaves the dialect in these ways only, in the
schema and in the definitions, at any depth (`Catalog.departs_within`): by exclusive bounds, by
null where it is not beside something else, by rows, and by keys of which something is said.
-/

namespace ApiTree

open Schema (Fits FitsThroughout May MayHold)

variable {K : List Departure}

/-- Exclusive bounds are written by themselves, not as flags. -/
def Bounds.departures (b : Bounds) : List Departure :=
  if b.gt.isSome || b.lt.isSome then [.exclusiveBound] else []

namespace Shape

mutual

/-- The ways in which the schema of a shape leaves the dialect. -/
def departures : Shape → List Departure
  | .null => [.nullType]
  | .number _ b => b.departures
  | .literal vs => Schema.departuresOfType (Schema.sharedType? vs)
  | .gathered _ _ s | .sequence s | .nullable s | .limited _ s | .patterned _ s | .said _ _ s =>
    departures s
  | .row _ ss => .noItems :: (if ss.isEmpty then [] else [.row]) ++ departuresOfAll ss
  | .entries _ k v =>
    Schema.departuresOfKeys k.schema ++
      (if Schema.showsKeys k.schema then departures k else []) ++ departures v
  | .union ss => departuresOfAll ss
  | .tagged _ members => departuresOfTagged members
  | _ => []

/-- The ways in which the schemas of shapes leave the dialect. -/
def departuresOfAll : List Shape → List Departure
  | [] => []
  | s :: ss => departures s ++ departuresOfAll ss

/-- The ways in which the schemas of the members of a union leave the dialect. -/
def departuresOfTagged : List (List Json × Shape) → List Departure
  | [] => []
  | (_, s) :: ss => departures s ++ departuresOfTagged ss

end

/-! ## schemas of shapes -/

/-- Writing bounds departs as the bounds do. -/
theorem fitsThroughout_bounds {b : Bounds} (h : b.departures ⊆ K) {s : Schema}
    (hs : FitsThroughout K s) : FitsThroughout K (b.writeTo s) := by
  have hgt (hgt : b.gt.isSome) : .exclusiveBound ∈ K := h (by simp [Bounds.departures, hgt])
  have hlt (hlt : b.lt.isSome) : .exclusiveBound ∈ K := h (by simp [Bounds.departures, hlt])
  have hmultiple := hs.putNumber (k := "multipleOf") (by decide) (by decide) b.multipleOf
  have hmaximum := hmultiple.putNumber (k := "maximum") (by decide) (by decide) b.le
  have hminimum := (hmaximum.putExclusive (.inr rfl) hlt).putNumber (k := "minimum")
    (by decide) (by decide) b.ge
  exact hminimum.putExclusive (.inl rfl) hgt

/-- Writing the bounds of a size departs in no further way. -/
theorem fitsThroughout_size {what : String} (hwhat : what ∈ ["Length", "Items", "Properties"])
    (z : Size) {s : Schema} (hs : FitsThroughout K s) : FitsThroughout K (z.writeTo what s) := by
  have hkeys : "min" ++ what ∉ Schema.departing ∧ "min" ++ what ≠ "$ref" ∧
      "max" ++ what ∉ Schema.departing ∧ "max" ++ what ≠ "$ref" := by
    simp only [List.mem_cons, List.not_mem_nil, or_false] at hwhat
    rcases hwhat with rfl | rfl | rfl <;> decide
  exact (hs.putNumber hkeys.1 hkeys.2.1 _).putNumber hkeys.2.2.1 hkeys.2.2.2 _

/-- A kind of number departs as its bounds do. -/
theorem fitsThroughout_numeric {b : Bounds} (h : b.departures ⊆ K) (k : Numeric) :
    FitsThroughout K (k.schema b) := by
  cases k with
  | int => exact fitsThroughout_bounds h (Schema.fitsThroughout_ofType (by simp) (by simp))
  | float => exact fitsThroughout_bounds h (Schema.fitsThroughout_ofType (by simp) (by simp))
  | decimal =>
      have hdoubles : b.asDoubles.departures = b.departures := by
        simp [Bounds.departures, Bounds.asDoubles]
      have hnumber : FitsThroughout K (b.asDoubles.writeTo (Schema.ofType "number")) :=
        fitsThroughout_bounds (hdoubles ▸ h) (Schema.fitsThroughout_ofType (by simp) (by simp))
      refine .of_entries (List.forall_mem_singleton.2 ?_) (by simp [Numeric.schema])
        (by simp [Numeric.schema])
      refine .arr (k := "anyOf") (.of_not_mem (by decide)) fun t ht => ?_
      simp only [List.mem_cons, List.not_mem_nil, or_false, Json.obj.injEq] at ht
      rcases ht with rfl | rfl
      · exact hnumber
      · exact Schema.fitsThroughout_ofType (by simp) (by simp)

/-- The schema of a format fits. -/
theorem fitsThroughout_ofFormat (format : String) : FitsThroughout K (Schema.ofFormat format) :=
  .append (Schema.fitsThroughout_ofType (by simp) (by simp))
    (List.forall_mem_singleton.2 (.str (k := "format") (by decide) format)) (by simp)

/-- A reference fits. -/
theorem fitsThroughout_reference (name : String) : FitsThroughout K (Reference.schema name) :=
  .of_entries (List.forall_mem_singleton.2 (.str (k := "$ref") (by decide) _))
    (by simp [Reference.schema]) (by simp [Reference.schema])

/-- No constraint is written under a keyword that may depart. -/
theorem keyword_not_mem_departing (listed : Bool) (l : Limit) :
    l.keyword listed ∉ Schema.departing := by
  cases l <;> cases listed <;> simp [Limit.keyword, Schema.departing]

/-- The keyword of a constraint may hold its value. -/
theorem mayHold_limit (listed : Bool) (l : Limit) : MayHold K (l.keyword listed) l.value := by
  have hkeyword := keyword_not_mem_departing listed l
  cases l with
  | pattern p => exact .str hkeyword p
  | _ n => exact .number hkeyword n

mutual

/-- The schema of a shape leaves the dialect in the ways of the shape only. -/
theorem fitsThroughout_schema (s : Shape) (h : s.departures ⊆ K) : FitsThroughout K s.schema := by
  cases s with
  | any => exact Schema.fitsThroughout_nil
  | null =>
      exact Schema.fitsThroughout_ofType (fun _ => h (List.mem_singleton_self _)) (by simp)
  | bool => exact Schema.fitsThroughout_ofType (by simp) (by simp)
  | uuid => exact fitsThroughout_ofFormat "uuid"
  | number k b => exact fitsThroughout_numeric h k
  | moment k b => exact fitsThroughout_ofFormat k.format
  | text size p =>
      have htype : FitsThroughout K (Schema.ofType "string") :=
        Schema.fitsThroughout_ofType (by simp) (by simp)
      have hsize : FitsThroughout K (size.writeTo "Length" (Schema.ofType "string")) :=
        fitsThroughout_size (by simp) size htype
      exact hsize.putText (by decide) (by decide) p
  | bytes size => exact fitsThroughout_size (by simp) size (fitsThroughout_ofFormat "binary")
  | literal vs => exact Schema.fitsThroughout_enum vs h
  | gathered k size s =>
      exact fitsThroughout_size (by simp) size
        (Schema.fitsThroughout_arrayOf (fitsThroughout_schema s h) _)
  | sequence s => exact Schema.fitsThroughout_arrayOf (fitsThroughout_schema s h) false
  | row size ss =>
      obtain ⟨hrow, hitems⟩ := List.append_subset.1 h
      refine fitsThroughout_size (by simp) size ?_
      refine Schema.fitsThroughout_rowOf (fitsThroughout_schemas ss hitems)
        (hrow (List.mem_cons_self)) fun hne => hrow (List.mem_cons_of_mem _ ?_)
      cases ss with
      | nil => exact absurd rfl hne
      | cons s ss => exact List.mem_singleton_self _
  | entries size k v =>
      obtain ⟨hkeys, hvalue⟩ := List.append_subset.1 h
      obtain ⟨hkeys, hkey⟩ := List.append_subset.1 hkeys
      refine fitsThroughout_size (by simp) size ?_
      have hvalues := fitsThroughout_schema v hvalue
      refine Schema.fitsThroughout_entriesOf hkeys (fun hshows => ?_) hvalues
      rw [if_pos hshows] at hkey
      exact fitsThroughout_schema k hkey
  | declared u => exact fitsThroughout_reference u.name
  | nullable s => exact Schema.fitsThroughout_nullable (fitsThroughout_schema s h)
  | union ss => exact Schema.fitsThroughout_anyOf (fitsThroughout_schemas ss h)
  | tagged property members =>
      exact Schema.fitsThroughout_oneOf property (fitsThroughout_taggedSchemas members h)
  | limited l s =>
      refine (fitsThroughout_schema s h).put (mayHold_limit _ l) (fun hk => ?_) (keyword_ne _ l)
      exact keyword_not_mem_departing s.isListed l (hk ▸ by decide)
  | patterned p s => exact fitsThroughout_schema s h
  | said title description s =>
      exact ((fitsThroughout_schema s h).putText (by decide) (by decide) title).putText
        (by decide) (by decide) description

/-- The schemas of shapes depart as the shapes do. -/
theorem fitsThroughout_schemas (ss : List Shape) (h : departuresOfAll ss ⊆ K) :
    ∀ s ∈ schemas ss, FitsThroughout K s := by
  cases ss with
  | nil => simp [schemas]
  | cons s ss =>
      obtain ⟨hhead, hrest⟩ := List.append_subset.1 h
      exact List.forall_mem_cons.2 ⟨fitsThroughout_schema s hhead, fitsThroughout_schemas ss hrest⟩

/-- The schemas of tagged shapes depart as the shapes do. -/
theorem fitsThroughout_taggedSchemas (members : List (List Json × Shape))
    (h : departuresOfTagged members ⊆ K) : ∀ m ∈ taggedSchemas members, FitsThroughout K m.2 := by
  cases members with
  | nil => simp [taggedSchemas]
  | cons m members =>
      obtain ⟨hhead, hrest⟩ := List.append_subset.1 h
      exact List.forall_mem_cons.2
        ⟨fitsThroughout_schema m.2 hhead, fitsThroughout_taggedSchemas members hrest⟩

end

end Shape

/-! ## definitions -/

namespace Catalog

variable {c : Catalog} {t : Ty} {i : Nat}

/-- The ways in which the definition of a declared type leaves the dialect. -/
def departuresOf (c : Catalog) (i : Nat) : List Departure :=
  (c.partShapes i).flatMap Shape.departures ++
    match c.form i with
    | .enum members _ =>
      Schema.departuresOfType ((Schema.sharedType? (members.map (·.2))).filter (· != "null"))
    | _ => []

/-- The schema of a field departs as the shape of the field does. -/
theorem fitsThroughout_propertySchema {f : FieldDecl} (h : (c.fieldShape f).departures ⊆ K)
    (default : Option Json) : FitsThroughout K (c.propertySchema f default) := by
  have hschema := Shape.fitsThroughout_schema _ h
  rw [propertySchema.eq_def]
  cases default with
  | none => exact hschema
  | some d => exact hschema.put (.value (by decide) d) (by decide) (by decide)

/-- Nothing is taken from a schema that is not a reference. -/
theorem withoutRepeats_eq_self (extra? : Use → Option Extra) {s : Schema}
    (h : "$ref" ∉ Table.keys s) : c.withoutRepeats extra? s = s := by
  rw [withoutRepeats, (Table.find?_eq_none_iff s "$ref").2 h]
  rfl

/-- A property without what it repeats: there is no type beside a reference, so no array is left
without its items. -/
theorem fitsThroughout_withoutRepeats (extra? : Use → Option Extra) {s : Schema}
    (h : FitsThroughout K s) : FitsThroughout K (c.withoutRepeats extra? s) := by
  by_cases href : "$ref" ∈ Table.keys s
  · have hsub := withoutRepeats_subset (c := c) extra? s
    refine h.of_subset hsub fun htype => absurd ?_ (h.fits.alone href)
    exact List.map_subset _ hsub htype
  · rwa [withoutRepeats_eq_self extra? href]

/-- A schema of fields departs as the fields do. -/
theorem fitsThroughout_fieldsSchema {trim : Schema → Schema}
    (htrim : ∀ s, FitsThroughout K s → FitsThroughout K (trim s)) {fs : List FieldDecl}
    (h : (fs.map c.fieldShape).flatMap Shape.departures ⊆ K) (shown : Json → Bool) :
    FitsThroughout K (c.fieldsSchema trim fs shown) := by
  rw [fieldsSchema]
  refine .append (.of_entries ?_ (by simp) (by simp)) ?_ ?_
  · simp only [List.forall_mem_cons, List.not_mem_nil, false_implies, implies_true, and_true]
    refine ⟨Schema.mayHold_type (by simp), .table (.of_not_mem (by decide)) (by decide) (by decide)
      fun n s hs => ?_⟩
    obtain ⟨f, hf, heq⟩ := List.mem_map.1 (Table.mem_of_mem_ofList hs)
    obtain ⟨-, heq⟩ := Prod.mk.inj heq
    refine Json.obj.inj heq ▸ htrim _ (fitsThroughout_propertySchema ?_ _)
    exact fun x hx => h (List.mem_flatMap.2 ⟨_, List.mem_map_of_mem hf, hx⟩)
  · split
    · simp
    · refine List.forall_mem_singleton.2 (.arr (k := "required") (.of_not_mem (by decide)) ?_)
      simp
  · split <;> simp

/-- What is said of further members departs in no further way. -/
theorem fitsThroughout_extra {s : Schema} (h : FitsThroughout K s) (extra : Extra) :
    FitsThroughout K (s ++ extra.schema) := by
  refine h.append ?_ (by cases extra <;> simp [Extra.schema])
  cases extra with
  | ignored => simp [Extra.schema]
  | allowed =>
      exact List.forall_mem_singleton.2 (.bool (k := "additionalProperties") (by decide) true)
  | forbidden =>
      exact List.forall_mem_singleton.2 (.bool (k := "additionalProperties") (by decide) false)

/-- The definition of a type departs as the type does. -/
theorem fitsThroughout_definitionWith {trim : Schema → Schema}
    (htrim : ∀ s, FitsThroughout K s → FitsThroughout K (trim s)) (extra : Extra)
    (h : c.departuresOf i ⊆ K) : FitsThroughout K (c.definitionWith trim extra i) := by
  obtain ⟨hparts, hmembers⟩ := List.append_subset.1 h
  rw [definitionWith]
  refine .putText (.put ?_ (.str (by decide) _) (by decide) (by decide)) (by decide) (by decide) _
  rw [partShapes] at hparts
  cases hform : c.form i with
  | model fs own title asText =>
      rw [hform] at hparts
      exact fitsThroughout_extra (fitsThroughout_fieldsSchema htrim hparts _) own
  | root t =>
      rw [hform, List.flatMap_singleton] at hparts
      exact Shape.fitsThroughout_schema _ hparts
  | record fs =>
      rw [hform] at hparts
      exact fitsThroughout_extra (fitsThroughout_fieldsSchema htrim hparts _) extra
  | enum members base =>
      rw [hform] at hmembers
      exact Schema.fitsThroughout_enum _ hmembers
  | opaqueClass => exact Schema.fitsThroughout_nil

/-- The ways in which what is derived for a type leaves the dialect: those of the type, and those of
the declared types that come with it. -/
def departures (c : Catalog) (t : Ty) : List Departure :=
  (c.shape t).departures ++
    (refersTo (c.schema t) ++ c.usesOf t).flatMap fun u => c.departuresOf u.index

/-- The definitions that come with a type depart as the type does. -/
theorem fitsThroughout_definitionIn {u : Use} (hu : u ∈ refersTo (c.schema t) ++ c.usesOf t) :
    FitsThroughout (c.departures t) (c.definitionIn t u) := by
  refine fitsThroughout_definitionWith (fun s => fitsThroughout_withoutRepeats _) _ ?_
  intro x hx
  exact List.mem_append_right _ (List.mem_flatMap.2 ⟨u, hu, hx⟩)

/-- What stands for a type at the top departs as the type does. -/
theorem fitsThroughout_top (c : Catalog) (t : Ty) :
    FitsThroughout (c.departures t) (c.top t) := by
  rcases top_cases c t with htop | ⟨u, hu, htop⟩
  · rw [htop]
    exact Shape.fitsThroughout_schema _ (List.subset_append_left _ _)
  · rw [htop]
    exact fitsThroughout_definitionIn (by simp [hu])

/-- With its final names a schema fits as before. -/
theorem fitsThroughout_withNames {s : Schema} (h : FitsThroughout K s) (names : Table Use String) :
    FitsThroughout K (Schema.untitled (membersOf (withNames names (.obj s)))) :=
  h.renamed.untitled

/-- What is derived for a type leaves the dialect in no other ways than those of the type. -/
theorem fitsThroughout_derived {d : Derived} (h : c.derive t = .ok d) :
    ∀ s ∈ d.schema :: Table.values d.definitions, FitsThroughout (c.departures t) s := by
  intro s hs
  rw [derive_eq h] at hs
  rcases List.mem_cons.1 hs with rfl | hs
  · exact fitsThroughout_withNames (fitsThroughout_top c t) _
  · obtain ⟨e, he, rfl⟩ := List.mem_map.1 hs
    obtain ⟨e', he', rfl⟩ := List.mem_map.1 (Table.mem_of_mem_ofList (Table.mem_sorted.1 he))
    obtain ⟨u, hu, rfl⟩ := List.mem_map.1 he'
    exact fitsThroughout_withNames (fitsThroughout_definitionIn (List.mem_append_right _ hu)) _

/-- In what is derived for a type, in the schema and in the definitions, at any depth, the type of a
schema is one name and there are no constants; and a schema leaves the dialect in no other way than
by the constructions of the type.  So what is derived for a type without such a construction is
all in the dialect. -/
theorem departs_within {d : Derived} (h : c.derive t = .ok d) :
    ∀ s ∈ d.schema :: Table.values d.definitions, ∀ u, s.Within u →
      (∀ j, ("type", j) ∈ u → ∃ x, j = .str x) ∧ "const" ∉ Table.keys u ∧
      (∀ x, u.Departs x → x ∈ c.departures t) ∧ (c.departures t = [] → u.InDialect) := by
  intro s hs u hu
  have hfits : Fits (c.departures t) u := fitsThroughout_derived h s hs u hu
  refine ⟨fun j => hfits.text, hfits.not_const, fun x => hfits.mem_of_departs, fun hnone => ?_⟩
  refine Schema.inDialect_iff.2 ⟨fun j => hfits.text, hfits.not_const, fun x hx => ?_⟩
  simpa [hnone] using hfits.mem_of_departs hx

/-- A price above zero, and a remark of lines that may be missing. -/
def bills : Catalog :=
  [{ name := "Price", qualname := "Price"
     form := .model
      [{ name := "amount", ty := .annotated (.scalar .int) [.limit (.gt (.int 0))] }]
      .ignored none [] },
    { name := "Remark", qualname := "Remark"
      form := .model
        [{ name := "lines", ty := .each .list (.union .bars [.scalar .str, .scalar .null]) }]
        .ignored none [] }]

/-- Lists of prices leave the dialect, by the exclusive bound of the amount and in no other way.
Lists of remarks are all in the dialect. -/
theorem bills_departs_within :
    (∃ d, derive bills (.each .list (.cls 0)) = .ok d ∧
      (∃ s ∈ Table.values d.definitions, ∃ u, s.Within u ∧ u.Departs .exclusiveBound) ∧
      ∀ s ∈ d.schema :: Table.values d.definitions, ∀ u, s.Within u → ∀ x, u.Departs x →
        x = .exclusiveBound) ∧
    ∃ d, derive bills (.each .list (.cls 1)) = .ok d ∧
      ∀ s ∈ d.schema :: Table.values d.definitions, ∀ u, s.Within u → u.InDialect := by
  constructor
  · let amount : Schema := [("type", .str "integer"), ("exclusiveMinimum", .int 0)]
    have hderive : derive bills (.each .list (.cls 0)) = .ok
        { schema := Schema.arrayOf (Reference.schema "Price") false
          definitions := [("Price", [("type", .str "object"),
            ("properties", .obj [("amount", .obj amount)]),
            ("required", .arr [.str "amount"])])] } := rfl
    have hamount : Schema.Under "properties" (.obj [("amount", .obj amount)]) amount :=
      .property (.inl rfl) (List.mem_singleton_self _)
    have honly : ∀ x ∈ bills.departures (.each .list (.cls 0)), x = .exclusiveBound := by
      decide +kernel
    have hinner : Schema.Inner [("type", .str "object"),
        ("properties", .obj [("amount", .obj amount)]),
        ("required", .arr [.str "amount"])] amount :=
      ⟨("properties", .obj [("amount", .obj amount)]), by simp, hamount⟩
    refine ⟨_, hderive, ⟨_, List.mem_singleton_self _, amount, .single hinner, ?_⟩, ?_⟩
    · exact ⟨("exclusiveMinimum", .int 0), by simp [amount], .inl rfl, by simp⟩
    · exact fun s hs u hu x hx => honly x ((departs_within hderive s hs u hu).2.2.1 x hx)
  · have hnone : bills.departures (.each .list (.cls 1)) = [] := by decide +kernel
    obtain ⟨d, hd⟩ : ∃ d, derive bills (.each .list (.cls 1)) = .ok d := ⟨_, rfl⟩
    exact ⟨d, hd, fun s hs u hu => (departs_within hd s hs u hu).2.2.2 hnone⟩

end Catalog
end ApiTree
