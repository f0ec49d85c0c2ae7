import ApiTree.Proofs.Schema.Calls
import ApiTree.Proofs.Schema.Ownership
import ApiTree.Proofs.Shape.References

/-!
# ApiTree.Proofs.Schema.Inline

The schema of a parameter stands in place of a reference: a reference at its top is replaced by
what it leads to, once.  So it has one still exactly if the definition that it leads to has one,
which is that of a type that holds nothing but another one (`Registry.has_inPlace_iff`).

* `Registry.paramSchemaOf_inline_iff` — when the schema of a parameter has no reference at its top,
  after any calls; the references in it resolve in either case.
-/

namespace ApiTree

namespace Catalog

variable {c : Catalog} {t : Ty} {d : Derived} {n : String} {u : Use}

/-- The use whose definition comes under a name with a type: the last one that has the name. -/
def bearer? (c : Catalog) (t : Ty) (n : String) : Option Use :=
  (c.usesOf t).reverse.find? fun u => c.nameIn t u == n

/-- A schema under the names that are chosen for a type. -/
def inNames (c : Catalog) (t : Ty) (s : Schema) : Schema :=
  Schema.untitled (membersOf (withNames (c.namesOf t (c.usesOf t)) (.obj s)))

theorem schema_of_derive (h : c.derive t = .ok d) : d.schema = c.inNames t (c.top t) := by
  rw [derive_eq h]
  rfl

/-- The definition under a name is that of the use that bears it. -/
theorem find?_definitions_of_derive (h : c.derive t = .ok d) (n : String) :
    d.definitions.find? n = (c.bearer? t n).map fun u => c.inNames t (c.definitionIn t u) := by
  rw [derive_eq h, assembled, Table.find?_sorted (Table.nodup_keys_ofList _),
    Table.ofList_eq_putAll, Table.find?_putAll_eq, Table.find?_nil, Option.or_none, entriesIn,
    withCandidates, List.map_map, ← List.map_reverse]
  exact Table.find?_map _ (c.nameIn t) _ n

/-- Names leave what a schema says at its top, but for its references. -/
theorem find?_inNames (s : Schema) {k : String} (hk : k ≠ "title") :
    Table.find? (c.inNames t s) k = (Table.find? s k).map (Reference.renamedUnder
      (fun s => (Use.ofName? s).bind (c.namesOf t (c.usesOf t)).find?) .schema k) := by
  rw [inNames, Schema.untitled, Table.find?_erase_of_ne _ hk, ← Table.find?_mapValues,
    ← Reference.renamedMembers_eq]
  rfl

theorem has_inNames (s : Schema) : Table.has (c.inNames t s) "$ref" = Table.has s "$ref" := by
  rw [Bool.eq_iff_iff, Table.has_iff_find?, Table.has_iff_find?, find?_inNames s (by decide)]
  cases Table.find? s "$ref" <;> simp

theorem refersByText_inNames {s : Schema} (h : s.RefersByText) : (c.inNames t s).RefersByText := by
  intro v hv
  rw [find?_inNames s (by decide), Option.map_eq_some_iff] at hv
  obtain ⟨w, hw, rfl⟩ := hv
  obtain ⟨text, rfl⟩ := h w hw
  exact ⟨_, rfl⟩

theorem refersByText_top (c : Catalog) (t : Ty) : (c.top t).RefersByText := by
  rcases top_cases c t with htop | ⟨u, -, htop⟩ <;> rw [htop]
  · exact (Shape.worded_schema (c.shape t)).refersByText
  · exact (worded_definitionWith _ _ _).refersByText

end Catalog

namespace Registry

open Registering

variable {c : Catalog} {t : Ty} {d : Catalog.Derived}

theorem inPlace_of_inline (h : Table.find? d.schema "$ref" = none) : inPlace d = d := by
  rw [inPlace, h]

/-- A reference is replaced by what it leads to. -/
theorem schema_inPlace_of_reference {n : String} {s : Schema}
    (h : Table.find? d.schema "$ref" = some (.str (Reference.pathTo n)))
    (hs : d.definitions.find? n = some s) : (inPlace d).schema = s := by
  rw [inPlace, h]
  simp only [Reference.target?_pathTo, hs]
  split <;> rfl

/-- The schema in place of a reference is a reference exactly if the definition belongs to a type
that forwards. -/
theorem has_inPlace_iff (hd : c.derive t = .ok d) (hclosed : d.Closed) :
    Table.has (inPlace d).schema "$ref" = true ↔ ∃ n u,
      Table.find? d.schema "$ref" = some (.str (Reference.pathTo n)) ∧
      c.bearer? t n = some u ∧ c.Forwards u.index := by
  cases href : Table.find? d.schema "$ref" with
  | none =>
      rw [inPlace_of_inline href, Table.has_iff_find?, href]
      simp
  | some v =>
      have htext : d.schema.RefersByText :=
        Catalog.schema_of_derive hd ▸ Catalog.refersByText_inNames (c.refersByText_top t)
      obtain ⟨ref, rfl⟩ := htext v href
      have hall : ref ∈ Reference.all (.obj d.schema) :=
        Reference.mem_allInMembers.2 ⟨_, Table.mem_of_find? href, .inl ⟨rfl, rfl⟩⟩
      obtain ⟨n, hn, rfl⟩ := hclosed.schema ref hall
      obtain ⟨s, hs⟩ := (Table.mem_keys_iff _ _).1 hn
      rw [schema_inPlace_of_reference href hs]
      rw [Catalog.find?_definitions_of_derive hd, Option.map_eq_some_iff] at hs
      obtain ⟨u, hu, rfl⟩ := hs
      rw [Catalog.has_inNames, Catalog.definitionIn, Catalog.working, Catalog.definition,
        Catalog.has_definitionWith_iff]
      constructor
      · exact fun h => ⟨n, u, rfl, hu, h⟩
      · rintro ⟨n', u', hn', hu', h⟩
        obtain rfl := Reference.pathTo_injective (Json.str.inj (Option.some.inj hn'))
        obtain rfl := Option.some.inj (hu.symm.trans hu')
        exact h

/-- The schema of a parameter stands in place.  Let calls be made on a fresh registry, some of
which may fail, and let something closed be derived for a type.  If the schema of the type as a
parameter is given, every reference in it resolves.  It has a reference at its top exactly if the
derived schema has one that leads to the definition of a type that holds nothing but another
one. -/
theorem paramSchemaOf_inline_iff (c : Catalog) (calls : List Call) (t : Ty) (ht : c.Closes t)
    (s : Schema) (r : Registry) (h : (paramSchemaOf c t).run.run (after c calls {}) = (.ok s, r)) :
    (∀ ref ∈ Reference.all (.obj s), ∃ j, r.resolve ref = .ok j) ∧
    (Table.has s "$ref" = true ↔ ∃ d n u, c.derive t = .ok d ∧
      Table.find? d.schema "$ref" = some (.str (Reference.pathTo n)) ∧
      c.bearer? t n = some u ∧ c.Forwards u.index) := by
  have hcourse := course_answer (c := c) (after c calls {}) (.parameter t)
  rw [answer, h] at hcourse
  cases hcourse with
  | remembered s hs => simp [Request.remembered?] at hs
  | stored d hd =>
      obtain ⟨d, hderive, rfl⟩ := derived_parameter_ok hd
      have hclosed := ht d hderive
      constructor
      · intro ref href
        obtain ⟨n, hn, rfl⟩ := (Catalog.Derived.closed_inPlace hclosed).schema ref href
        obtain ⟨e, he, rfl⟩ := List.mem_map.1 hn
        refine exists_resolve_of_mem ((mem_names_takeAll (owned_after c calls)).2 (.inr ?_))
        exact ⟨_, List.mem_map_of_mem he, rfl⟩
      · rw [Request.given, has_inPlace_iff hderive hclosed]
        constructor
        · rintro ⟨n, u, hu⟩
          exact ⟨d, n, u, hderive, hu⟩
        · rintro ⟨d', n, u, hd', hu⟩
          obtain rfl := Except.ok.inj (hderive.symm.trans hd')
          exact ⟨n, u, hu⟩

/-- A user, and a link that holds nothing but a user. -/
def links : Catalog :=
  [{ name := "User", qualname := "User"
     form := .model [{ name := "name", ty := .scalar .str }] .ignored none [] },
    { name := "Link", qualname := "Link", form := .root (.cls 0) }]

/-- A type of links with a description. -/
def describedAs (description : String) (i : Nat) : Ty :=
  .annotated (.cls i) [.field { description := some description }]

/-- After a user was asked for and another type was refused its name, a described link is given as
the reference to the user that a link is; a described user is given in place. -/
theorem links_inline :
    (∃ s r, (paramSchemaOf links (describedAs "the owner" 1)).run.run
        (after links [.ask (.body (.cls 0)), .store ⟨"User", "other", []⟩] {}) = (.ok s, r) ∧
      (∀ ref ∈ Reference.all (.obj s), ∃ j, r.resolve ref = .ok j) ∧
      Table.has s "$ref" = true ∧
      ∃ n u, links.bearer? (describedAs "the owner" 1) n = some u ∧ links.Forwards u.index) ∧
    ∃ s r, (paramSchemaOf links (describedAs "the owner" 0)).run.run
        (after links [.ask (.body (.cls 0)), .store ⟨"User", "other", []⟩] {}) = (.ok s, r) ∧
      Table.has s "$ref" = false := by
  let calls : List Call := [.ask (.body (.cls 0)), .store ⟨"User", "other", []⟩]
  have hgiven {i : Nat} {b : Bool} (h : ((paramSchemaOf links (describedAs "the owner" i)).run.run
      (after links calls {})).1.toOption.map (fun s => Table.has s "$ref") = some b) :
      ∃ s r, (paramSchemaOf links (describedAs "the owner" i)).run.run (after links calls {}) =
        (.ok s, r) ∧ Table.has s "$ref" = b := by
    obtain ⟨s, hs, hb⟩ := Option.map_eq_some_iff.1 h
    exact ⟨s, _, Prod.ext (toOption_eq_some_iff.1 hs) rfl, hb⟩
  constructor
  · obtain ⟨s, r, hrun, href⟩ := hgiven (i := 1) (b := true) (by decide +kernel)
    have hclosed : links.Closes (describedAs "the owner" 1) := by decide +kernel
    obtain ⟨hresolve, hiff⟩ := paramSchemaOf_inline_iff links calls _ hclosed s r hrun
    obtain ⟨d, n, u, -, -, hu⟩ := hiff.1 href
    exact ⟨s, r, hrun, hresolve, href, n, u, hu⟩
  · exact hgiven (by decide +kernel)

end Registry
end ApiTree
