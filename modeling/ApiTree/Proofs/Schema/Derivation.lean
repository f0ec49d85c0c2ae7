import ApiTree.Proofs.Schema.Alternatives
import ApiTree.Proofs.Schema.Listed
import ApiTree.Proofs.Schema.Order

/-!
# ApiTree.Proofs.Schema.Derivation

What is derived for a structural type.  Its definitions are those of the enumerations that stand
in it, each under a name that leads to the definition of one that lists the same values
(`Catalog.exists_definition`).  A type that is nothing but one enumeration stands in full, without
definitions (`Catalog.derive_cases`).
-/

namespace ApiTree

/-- A search among nodes that lead nowhere finds the nodes that it starts from. -/
theorem mem_depthFirst_of_leaves {α : Type} [DecidableEq α] {next : α → List α} {rounds : Nat}
    {stack found : List α} (hleaf : ∀ x ∈ stack, next x = []) (hrounds : stack.length ≤ rounds)
    (x : α) : x ∈ depthFirst next rounds stack found ↔ x ∈ found ∨ x ∈ stack := by
  induction rounds generalizing stack found with
  | zero =>
      obtain rfl := List.length_eq_zero_iff.1 (Nat.le_zero.1 hrounds)
      simp [depthFirst]
  | succ rounds ih =>
      cases stack with
      | nil => simp [depthFirst]
      | cons y stack =>
          have hrest : ∀ x ∈ stack, next x = [] := fun x hx => hleaf x (List.mem_cons_of_mem _ hx)
          have hlength : stack.length ≤ rounds := Nat.le_of_succ_le_succ hrounds
          rw [depthFirst]
          split
          · next hfound =>
              have hy : y ∈ found := by simpa using hfound
              rw [ih hrest hlength, List.mem_cons, ← or_assoc]
              exact or_congr_left ⟨.inl, fun h => h.elim id fun heq => heq ▸ hy⟩
          · rw [hleaf y List.mem_cons_self, List.nil_append, ih hrest hlength]
            simp [or_assoc]

namespace Catalog

variable {c : Catalog} {t : Ty} {d : Derived}

/-! ## parts of a derivation -/

/-- The definition of a use, as it is for the type. -/
def definitionIn (c : Catalog) (t : Ty) (u : Use) : Schema := c.working (c.progress t) u

/-- The uses that some uses lead to. -/
def closure (c : Catalog) (t : Ty) (heads : List Use) : List Use :=
  let uses (u : Use) : List Use := refersTo (c.definitionIn t u)
  depthFirst uses ((refersTo (c.schema t)).length +
    (c.progress t).complete.keys.foldl (fun n u => n + (uses u).length) 1) heads []

/-- The declared type that is the whole type. -/
def inFull? (c : Catalog) (t : Ty) : Option Use :=
  match c.schema t, refersTo (c.schema t) with
  | [_], [u] =>
    if (c.closure t [u]).any fun v => (refersTo (c.definitionIn t v)).contains u then none
    else some u
  | _, _ => none

/-- The schema of the type itself. -/
def top (c : Catalog) (t : Ty) : Schema :=
  match (c.inFull? t).filter fun _ => Table.has (c.schema t) "$ref" with
  | some u => c.definitionIn t u
  | none => c.schema t

/-- Some uses with their candidates and definitions. -/
def entriesIn (c : Catalog) (t : Ty) (types : List Use) : List (Use × List String × Json) :=
  c.withCandidates types (c.progress t).named fun u => .obj (c.definitionIn t u)

/-- The names of some uses, chosen again where definitions are equal under the first names. -/
def namesOf (c : Catalog) (t : Ty) (types : List Use) : Table Use String :=
  naming ((c.entriesIn t types).map fun (u, ns, s) =>
    (u, ns, withNames (naming (c.entriesIn t types)) s))

/-- A schema and the definitions of some uses, under their names. -/
def assembled (c : Catalog) (t : Ty) (top : Schema) (types : List Use) : Derived where
  schema := Schema.untitled (membersOf (withNames (c.namesOf t types) (.obj top)))
  definitions := Table.sorted <| Table.ofList <| (c.entriesIn t types).map fun (u, _, s) =>
    (((c.namesOf t types).find? u).getD u.name,
      Schema.untitled (membersOf (withNames (c.namesOf t types) s)))

/-- What is derived for a type is assembled from its top and what comes with it. -/
theorem derive_eq (h : c.derive t = .ok d) :
    d = c.assembled t (c.top t) (c.closure t (refersTo (c.top t))) := by
  rw [derive] at h
  obtain ⟨⟨⟩, -, h⟩ := bind_eq_ok_iff.1 h
  exact (Except.ok.inj h).symm

/-- A name has one definition. -/
theorem nodup_definitions (h : c.derive t = .ok d) : d.definitions.keys.Nodup := by
  rw [derive_eq h]
  exact Table.nodup_keys_sorted (Table.nodup_keys_ofList _)

/-! ## structural types -/

variable {i : Nat}

/-- The definition of an enumeration lists the values of its members. -/
theorem lists_definitionIn {members : List (String × Json)} {base : Option EnumBase}
    (hform : c.form i = .enum members base) (t : Ty) :
    Schema.Lists (members.map (·.2)) (c.definitionIn t { index := i }) :=
  lists_definitionWith hform _ _

/-- A schema that lists labels refers to nothing. -/
theorem refersTo_eq_nil {vs : List Json} {s : Schema} (h : Schema.Lists vs s)
    (hvs : ∀ v ∈ vs, v.isLabel = true) : refersTo s = [] := by
  rw [refersTo, h.all_eq_nil fun v hv => Json.isLiteral_of_isLabel (hvs v hv)]
  rfl

/-- A schema that lists labels has no names to change. -/
theorem withNames_of_lists {vs : List Json} {s : Schema} (h : Schema.Lists vs s)
    (hvs : ∀ v ∈ vs, v.isLabel = true) (names : Table Use String) :
    withNames names (.obj s) = .obj s :=
  h.renamed fun v hv => Json.isLiteral_of_isLabel (hvs v hv)

/-- A reference refers to its use. -/
theorem refersTo_reference (i : Nat) :
    refersTo (Reference.schema (Use.name { index := i })) = [{ index := i }] := by
  simp [refersTo, Reference.schema, Reference.all, Reference.allInMembers,
    Reference.target?_pathTo, Use.ofName?_name]

/-- The uses that stand in a structural type are those of its enumerations. -/
theorem mem_refersTo_schema (ht : Ty.Structural c t) (ha : c.Apart t) (u : Use) :
    u ∈ refersTo (c.schema t) ↔ ∃ i ∈ t.heads, u = { index := i } := by
  rw [refersTo, List.mem_filterMap]
  constructor
  · rintro ⟨ref, href, hu⟩
    obtain ⟨i, hi, rfl⟩ := (mem_references_iff ht ha ref).1 href
    rw [Reference.target?_pathTo, Option.bind_some, Use.ofName?_name, Option.some.injEq] at hu
    exact ⟨i, hi, hu.symm⟩
  · rintro ⟨i, hi, rfl⟩
    refine ⟨_, (mem_references_iff ht ha _).2 ⟨i, hi, rfl⟩, ?_⟩
    rw [Reference.target?_pathTo, Option.bind_some, Use.ofName?_name]

/-- What comes with a structural type are the enumerations in it. -/
theorem mem_closure (ht : Ty.Structural c t) {heads : List Use}
    (hheads : ∀ u ∈ heads, ∃ i ∈ t.heads, u = { index := i })
    (hlength : heads.length ≤ (refersTo (c.schema t)).length) (u : Use) :
    u ∈ c.closure t heads ↔ u ∈ heads := by
  rw [closure, mem_depthFirst_of_leaves ?_ (Nat.le_add_right_of_le hlength)]
  · simp
  · intro v hv
    obtain ⟨i, hi, rfl⟩ := hheads v hv
    obtain ⟨members, base, hform, hlabels⟩ := ht.exists_enum hi
    exact refersTo_eq_nil (lists_definitionIn hform t) hlabels

/-- Definitions that list labels keep their names when names are chosen again. -/
theorem namesOf_eq (ht : Ty.Structural c t) {types : List Use}
    (htypes : ∀ u ∈ types, ∃ i ∈ t.heads, u = { index := i }) :
    c.namesOf t types = naming (c.entriesIn t types) := by
  have hsame : (c.entriesIn t types).map (fun (u, ns, s) =>
      (u, ns, withNames (naming (c.entriesIn t types)) s)) = c.entriesIn t types := by
    refine (List.map_congr_left fun e he => ?_).trans (List.map_id _)
    obtain ⟨u, hu, rfl⟩ := List.mem_map.1 he
    obtain ⟨i, hi, rfl⟩ := htypes u hu
    obtain ⟨members, base, hform, hlabels⟩ := ht.exists_enum hi
    exact congrArg (fun s => (({ index := i } : Use), c.candidates _ { index := i }, s))
      (withNames_of_lists (lists_definitionIn hform t) hlabels _)
  rw [namesOf, hsame]

/-- A type that is nothing but an enumeration has it in full as its schema. -/
theorem top_eq_definition (ht : Ty.Structural c t) (hi : i ∈ t.heads)
    (h : c.schema t = Reference.schema (Use.name { index := i })) :
    c.top t = c.definitionIn t { index := i } := by
  have hrefers : refersTo (c.schema t) = [{ index := i }] := h ▸ refersTo_reference i
  have hfull : c.inFull? t = some { index := i } := by
    rw [inFull?, hrefers, h, Reference.schema]
    refine if_neg fun hany => ?_
    -- the definition of an enumeration refers to nothing, so not to itself
    obtain ⟨v, hv, hmem⟩ := List.any_eq_true.1 hany
    rw [mem_closure ht (by simpa using hi) (by simp [hrefers]), List.mem_singleton] at hv
    obtain ⟨members, base, hform, hlabels⟩ := ht.exists_enum hi
    rw [hv, refersTo_eq_nil (lists_definitionIn hform t) hlabels] at hmem
    simp at hmem
  rw [top, hfull, h]
  rfl

/-- A schema without a reference at its top stands for itself. -/
theorem top_eq_schema (h : Table.has (c.schema t) "$ref" = false) : c.top t = c.schema t := by
  have hfilter : (c.inFull? t).filter (fun _ => Table.has (c.schema t) "$ref") = none := by
    simp [h]
  rw [top, hfilter]

/-- The definitions that are derived list the labels of enumerations. -/
theorem lists_definitions (ht : Ty.Structural c t) {top : Schema} {types : List Use}
    (htypes : ∀ u ∈ types, ∃ i ∈ t.heads, u = { index := i }) :
    ∀ e ∈ (c.assembled t top types).definitions, ∃ u ∈ types,
      e = (((c.namesOf t types).find? u).getD u.name, Schema.untitled (c.definitionIn t u)) := by
  intro e he
  obtain ⟨e', he', rfl⟩ := List.mem_map.1 (Table.mem_of_mem_ofList (Table.mem_sorted.1 he))
  obtain ⟨u, hu, rfl⟩ := List.mem_map.1 he'
  obtain ⟨i, hi, rfl⟩ := htypes u hu
  obtain ⟨members, base, hform, hlabels⟩ := ht.exists_enum hi
  refine ⟨_, hu, Prod.ext rfl ?_⟩
  show Schema.untitled (membersOf (withNames _ _)) = _
  rw [withNames_of_lists (lists_definitionIn hform t) hlabels]
  rfl

/-- The name of an enumeration leads to the definition of one that lists the same labels. -/
theorem exists_definition (ht : Ty.Structural c t) (top : Schema) {types : List Use}
    (htypes : ∀ u, u ∈ types ↔ ∃ i ∈ t.heads, u = { index := i }) (hi : i ∈ t.heads)
    {members : List (String × Json)} {base : Option EnumBase}
    (hform : c.form i = .enum members base) (hlabels : ∀ v ∈ members.map (·.2), v.isLabel = true) :
    ∃ n s, (c.namesOf t types).find? { index := i } = some n ∧
      (n, s) ∈ (c.assembled t top types).definitions ∧ Schema.Lists (members.map (·.2)) s := by
  have hu : ({ index := i } : Use) ∈ types := (htypes _).2 ⟨i, hi, rfl⟩
  have hnames : c.namesOf t types = naming (c.entriesIn t types) :=
    namesOf_eq ht fun u hu => (htypes u).1 hu
  have horder : ∀ u ∈ types, u ∈ (c.progress t).named := by
    intro u hu
    obtain ⟨j, hj, rfl⟩ := (htypes u).1 hu
    exact mem_named_progress ht hj
  have hfind (u : Use) (hu : u ∈ types) : ∃ n, (c.namesOf t types).find? u = some n :=
    ⟨_, hnames ▸ find?_naming hu⟩
  obtain ⟨n, hn⟩ := hfind _ hu
  have hkey : n ∈ (c.assembled t top types).definitions.keys := by
    refine Table.mem_keys_sorted.2 ((Table.mem_keys_ofList _ n).2 ?_)
    have hentry := List.mem_map_of_mem (f := fun u : Use => (u, c.candidates
      (c.progress t).named u, Json.obj (c.definitionIn t u))) hu
    have hnamed := List.mem_map_of_mem (f := fun e : Use × List String × Json =>
      ((c.namesOf t types).find? e.1).getD e.1.name) hentry
    rw [hn] at hnamed
    rw [Table.keys, List.map_map]
    exact hnamed
  obtain ⟨s, hs⟩ := (Table.mem_keys_iff _ _).1 hkey
  have hmem := Table.mem_of_find? hs
  refine ⟨n, s, hn, hmem, ?_⟩
  -- the definition under the name is that of some use with the same name
  obtain ⟨v, hv, heq⟩ := lists_definitions ht (fun u hu => (htypes u).1 hu) _ hmem
  obtain ⟨m, hm⟩ := hfind v hv
  obtain ⟨hname, rfl⟩ := Prod.mk.inj heq
  obtain rfl : n = m := by simpa [hm] using hname
  obtain ⟨j, hj, rfl⟩ := (htypes v).1 hv
  obtain ⟨members', base', hform', hlabels'⟩ := ht.exists_enum hj
  have hlists := lists_definitionIn hform t
  have hlists' := lists_definitionIn hform' t
  rcases looseEq_of_naming_eq hu hv horder (hnames ▸ hn.trans hm.symm) with heq | hsame
  · exact heq ▸ hlists.untitled
  · rw [hlists.values_eq hlists' hlabels hlabels' hsame]
    exact hlists'.untitled

/-- A type that is nothing but an enumeration stands in full, without definitions.  Any other has
its schema and the definitions of the enumerations in it, under their names. -/
theorem derive_cases (ht : Ty.Structural c t) (ha : c.Apart t) (h : c.derive t = .ok d) :
    (∃ i ∈ t.heads, c.schema t = Reference.schema (Use.name { index := i }) ∧
      d = { schema := Schema.untitled (c.definitionIn t { index := i }), definitions := [] }) ∨
    Table.has (c.schema t) "$ref" = false ∧
      ∃ types, (∀ u, u ∈ types ↔ ∃ i ∈ t.heads, u = { index := i }) ∧
        d = c.assembled t (c.schema t) types := by
  have hd := derive_eq h
  cases href : Table.has (c.schema t) "$ref" with
  | true =>
      obtain ⟨i, hi, hschema⟩ := eq_reference_of_has ht ha href
      obtain ⟨members, base, hform, hlabels⟩ := ht.exists_enum hi
      have hlists := lists_definitionIn hform t
      have htypes : c.closure t (refersTo (c.definitionIn t { index := i })) = [] := by
        rw [refersTo_eq_nil hlists hlabels]
        refine List.eq_nil_iff_forall_not_mem.2 fun u hu => ?_
        simpa using (mem_closure ht (by simp) (by simp) u).1 hu
      rw [top_eq_definition ht hi hschema, htypes] at hd
      refine .inl ⟨i, hi, hschema, hd.trans ?_⟩
      rw [assembled, withNames_of_lists hlists hlabels]
      rfl
  | false =>
      rw [top_eq_schema href] at hd
      refine .inr ⟨rfl, _, fun u => ?_, hd⟩
      have hheads (u : Use) := mem_refersTo_schema ht ha u
      rw [mem_closure ht (fun u hu => (hheads u).1 hu) (Nat.le_refl _), hheads]

end Catalog
end ApiTree
