import ApiTree.Proofs.Schema.Ownership

/-!
# ApiTree.Proofs.Schema.OwnNames

Derivations that name every declared type by its own name.  The first candidate for the name of a
use is the short name of its type; a use gets it unless another one could have it too.  For types
that are well named (`Catalog.WellNamed`) the short name is the name that the type has as a
component of its own, so both ways to a component lead to one (`Catalog.find?_namesOf`).

* `Registry.asked_one_component` — a registry that is asked for types that are well named stores
  each declared type under its own name only, and every reference is to that name.
-/

namespace ApiTree

namespace Catalog

variable {c : Catalog} {t : Ty} {u v : Use} {d : Derived} {n : String} {i : Nat}

/-! ## names -/

/-- The name of a use without scopes. -/
def shortName (c : Catalog) (u : Use) : String :=
  fitting (String.join ((c.nameParts u).map unscopedName))

/-- The candidates of a use are its short name, its full name, and the last one. -/
theorem candidates_eq (order : List Use) (u : Use) :
    c.candidates order u = [c.shortName u, c.longName u, c.lastCandidate order u] := rfl

/-- A use is of a type that a search found under the name of the type. -/
def Finds (c : Catalog) (found : Table String (List String)) (u : Use) : Prop :=
  c.classIdentity u.index ∈ (found.find? (c.decl u.index).name).getD []

instance (c : Catalog) (found : Table String (List String)) (u : Use) :
    Decidable (c.Finds found u) :=
  inferInstanceAs (Decidable (_ ∈ _))

/-- The declared types that come with a type can have their own names: no constraint sets a use
apart, a name fits as it is and begins with no full name, and types of one name, if there are any,
are found by the search and differ in their identities. -/
structure WellNamed (c : Catalog) (t : Ty) (found : Table String (List String)) : Prop where
  unmarked : ∀ u ∈ c.usesOf t, u.mark = ""
  short : ∀ u ∈ c.usesOf t, c.shortName u = (c.decl u.index).name
  apart : ∀ u ∈ c.usesOf t, ∀ v ∈ c.usesOf t,
    ¬ (c.longName v).toList <+: (c.decl u.index).name.toList
  namesakes : ∀ u ∈ c.usesOf t, ∀ v ∈ c.usesOf t, (c.decl u.index).name = (c.decl v.index).name →
    u.index ≠ v.index →
    c.Finds found u ∧ c.Finds found v ∧ c.classIdentity u.index ≠ c.classIdentity v.index

instance (c : Catalog) (t : Ty) (found : Table String (List String)) :
    Decidable (c.WellNamed t found) :=
  decidable_of_iff ((∀ u ∈ c.usesOf t, u.mark = "") ∧
    (∀ u ∈ c.usesOf t, c.shortName u = (c.decl u.index).name) ∧
    (∀ u ∈ c.usesOf t, ∀ v ∈ c.usesOf t,
      ¬ (c.longName v).toList <+: (c.decl u.index).name.toList) ∧
    ∀ u ∈ c.usesOf t, ∀ v ∈ c.usesOf t, (c.decl u.index).name = (c.decl v.index).name →
      u.index ≠ v.index →
      c.Finds found u ∧ c.Finds found v ∧ c.classIdentity u.index ≠ c.classIdentity v.index)
    ⟨fun h => ⟨h.1, h.2.1, h.2.2.1, h.2.2.2⟩, fun h => ⟨h.unmarked, h.short, h.apart, h.namesakes⟩⟩

/-- Where no two types that were found share a name, those of one name are one type. -/
theorem WellNamed.index_eq {found : Table String (List String)} (h : c.WellNamed t found)
    (hshared : Registry.sharedName? found = none) (hu : u ∈ c.usesOf t) (hv : v ∈ c.usesOf t)
    (hname : (c.decl u.index).name = (c.decl v.index).name) : u.index = v.index := by
  by_contra hne
  obtain ⟨hfindsu, hfindsv, hidentity⟩ := h.namesakes u hu v hv hname hne
  rw [Finds, ← hname] at hfindsv
  have hone := Nat.le_antisymm (length_of_unshared hshared _) (List.length_pos_of_mem hfindsu)
  obtain ⟨id, hid⟩ := List.length_eq_one_iff.1 hone
  rw [Finds, hid, List.mem_singleton] at hfindsu
  rw [hid, List.mem_singleton] at hfindsv
  exact hidentity (hfindsu.trans hfindsv.symm)

/-- A use gets the first of its candidates if it is clear. -/
theorem chosen_of_isClear {entries : List (Use × List String × Json)} {s : Json}
    {names : List String} (h : isClear entries u s n = true) :
    chosen entries u (n :: names, s) = n := by
  rw [chosen, List.find?_cons_of_pos h, Option.getD_some]

section WellNamed

variable {found : Table String (List String)} (ht : c.WellNamed t found)
  (hshared : Registry.sharedName? found = none)

include ht hshared

/-- No other use can have the name of a type. -/
theorem eq_of_name_mem_candidates (hu : u ∈ c.usesOf t) (hv : v ∈ c.usesOf t) {order : List Use}
    (h : (c.decl u.index).name ∈ c.candidates order v) : v = u := by
  simp only [candidates_eq, List.mem_cons, List.not_mem_nil, or_false] at h
  rcases h with h | h | h
  · rw [ht.short v hv] at h
    have hindex := ht.index_eq hshared hv hu h.symm
    have hmark := (ht.unmarked v hv).trans (ht.unmarked u hu).symm
    cases u
    cases v
    exact congrArg₂ Use.mk hindex hmark
  · exact absurd (h ▸ List.prefix_rfl) (ht.apart u hu v hv)
  · refine absurd ?_ (ht.apart u hu v hv)
    rw [h, lastCandidate, String.toList_append, String.toList_append, List.append_assoc]
    exact List.prefix_append _ _

/-- A use is named as its type. -/
theorem find?_namesOf (hu : u ∈ c.usesOf t) :
    (c.namesOf t (c.usesOf t)).find? u = some (c.decl u.index).name := by
  -- the candidates and the schemas that are compared when names are chosen once more
  have hnames : c.namesOf t (c.usesOf t) =
      naming (c.withCandidates (c.usesOf t) (c.progress t).named fun u =>
        withNames (naming (c.entriesIn t (c.usesOf t))) (.obj (c.definitionIn t u))) := by
    rw [namesOf, entriesIn, withCandidates, withCandidates, List.map_map]
    rfl
  rw [hnames, find?_naming hu, candidates_eq, chosen_of_isClear, ht.short u hu]
  refine List.all_eq_true.2 fun e he => ?_
  obtain ⟨v, hv, rfl⟩ := List.mem_map.1 he
  rw [ht.short u hu]
  by_cases hmem : (c.decl u.index).name ∈ c.candidates (c.progress t).named v
  · simp [eq_of_name_mem_candidates ht hshared hu hv hmem]
  · simp [hmem]

/-- A use comes under the name of its type. -/
theorem nameIn_eq (hu : u ∈ c.usesOf t) : c.nameIn t u = (c.decl u.index).name := by
  rw [nameIn, find?_namesOf ht hshared hu, Option.getD_some]

end WellNamed

/-! ## schemas -/

/-- The name of the type that a working name stands for, among those that come with a type. -/
def ownName? (c : Catalog) (t : Ty) (name : String) : Option String :=
  (Use.ofName? name).bind fun u => if u ∈ c.usesOf t then some (c.decl u.index).name else none

/-- A working schema as it is given out: each reference to a declared type is to the component
with the name of the type. -/
def inOwnNames (c : Catalog) (t : Ty) (s : Schema) : Schema :=
  Schema.untitled (membersOf (Reference.renamed (c.ownName? t) .schema (.obj s)))

/-- A reference is one in own names too. -/
theorem has_inOwnNames (t : Ty) (n : String) :
    Table.has (c.inOwnNames t (Reference.schema n)) "$ref" = true := by
  simp [inOwnNames, Reference.schema, Reference.renamed, Reference.renamedMembers, membersOf,
    Schema.untitled, Table.erase, Table.has]

/-- Names are given to the uses that come with a type. -/
theorem keys_namesOf (types : List Use) : (c.namesOf t types).keys = types := by
  rw [namesOf, naming_eq, Table.keys_mapValues, entriesIn, withCandidates, Table.keys, List.map_map,
    List.map_map]
  exact List.map_id types

section WellNamed

variable {found : Table String (List String)} (ht : c.WellNamed t found)
  (hshared : Registry.sharedName? found = none)

include ht hshared

/-- With its final names a schema is in own names. -/
theorem untitled_withNames (s : Schema) :
    Schema.untitled (membersOf (withNames (c.namesOf t (c.usesOf t)) (.obj s))) =
      c.inOwnNames t s := by
  have hnames :
      (fun s => (Use.ofName? s).bind (c.namesOf t (c.usesOf t)).find?) = c.ownName? t := by
    funext name
    rw [ownName?]
    congr 1
    funext u
    split
    · next hu => exact find?_namesOf ht hshared hu
    · next hu =>
        rw [Table.find?_eq_none_iff, keys_namesOf]
        exact hu
  rw [withNames, hnames, inOwnNames]

/-- What is derived for a type that is well named. -/
theorem derived_inOwnNames (hd : c.derive t = .ok d) : d.schema = c.inOwnNames t (c.top t) ∧
    ∀ e ∈ d.definitions, ∃ u ∈ c.usesOf t,
      e = ((c.decl u.index).name, c.inOwnNames t (c.definitionIn t u)) := by
  have hd' := derive_eq hd
  refine ⟨by rw [hd', assembled]; exact untitled_withNames ht hshared _, fun e he => ?_⟩
  rw [hd'] at he
  obtain ⟨e', he', rfl⟩ := List.mem_map.1 (Table.mem_of_mem_ofList (Table.mem_sorted.1 he))
  obtain ⟨u, hu, rfl⟩ := List.mem_map.1 he'
  refine ⟨u, hu, ?_⟩
  dsimp only
  rw [← usesOf, find?_namesOf ht hshared hu, Option.getD_some, untitled_withNames ht hshared]

/-- A type that is stored itself is a declared type, by its name and with its definition. -/
theorem componentName?_eq_some (hd : c.derive t = .ok d) (h : c.componentName? t d = some n) :
    ∃ i, t = .cls i ∧ n = (c.decl i).name ∧
      d.schema = c.inOwnNames t (c.definitionIn t { index := i }) := by
  cases t with
  | cls i =>
      rw [componentName?] at h
      split at h
      · next hcond =>
          obtain ⟨-, hnot⟩ := Bool.and_eq_true_iff.1 hcond
          refine ⟨i, rfl, (Option.some.inj h).symm, ?_⟩
          have hschema := (derived_inOwnNames ht hshared hd).1
          rcases top_cases c (.cls i) with htop | ⟨u, hu, htop⟩
          · rw [hschema, htop, schema_cls, has_inOwnNames] at hnot
            simp at hnot
          · rw [schema_cls, refersTo_reference] at hu
            obtain rfl := (List.cons.inj hu).1
            rw [hschema, htop]
      · simp at h
  | _ => simp [componentName?] at h

end WellNamed

end Catalog

namespace Registry

open Registering

variable {c : Catalog} {t : Ty} {ts : List Ty} {d : Catalog.Derived} {es : List Entry}
  {r r' : Registry} {found : Table String (List String)} {s : Inquiry} {ss : List Inquiry}

/-! ## inquiries for bodies -/

/-- Answers inquiries, one after the other; each answer is noted with its request. -/
def inquire (c : Catalog) : List Inquiry → Registering (List (Request × Schema))
  | [] => return []
  | s :: ss => do
    let schema ← answerInquiry c s
    let rest ← inquire c ss
    return (s.request, schema) :: rest

/-- Inquiries are answered one after the other. -/
theorem run_inquire_cons_ok {xs : List (Request × Schema)}
    (h : (inquire c (s :: ss)).run.run r = (.ok xs, r')) :
    ∃ a rest r₁, (answerInquiry c s).run.run r = (.ok a, r₁) ∧
      (inquire c ss).run.run r₁ = (.ok rest, r') ∧ xs = (s.request, a) :: rest := by
  obtain ⟨a, r₁, ha, h⟩ := run_bind_ok h
  obtain ⟨rest, r₂, hrest, h⟩ := run_bind_ok h
  obtain ⟨rfl, rfl⟩ := run_pure_ok h
  exact ⟨a, rest, r₁, ha, hrest, rfl⟩

/-- Inquiries that find everything are answered as their requests are. -/
theorem inquire_exact (qs : List Request) : inquire c (qs.map (.exact c)) = answers c qs := by
  induction qs with
  | nil => rfl
  | cons q qs ih =>
      rw [List.map_cons, inquire, answers, ih, answerInquiry, answer_eq]
      rfl

/-- Inquiries for types as bodies, each with what was found in the type. -/
def bodies (ts : List (Ty × Table String (List String))) : List Inquiry :=
  ts.map fun x => ⟨.body x.1, x.2⟩

/-! ## entries under own names -/

/-- An entry of a declared type under its name, with its definition as it is for a type. -/
def OfType (c : Catalog) (t : Ty) (e : Entry) : Prop :=
  ∃ u, (u ∈ c.usesOf t ∨ t = .cls u.index) ∧ e.name = (c.decl u.index).name ∧
    e.schema = c.inOwnNames t (c.definitionIn t u)

/-- An answer for a type: a reference to a declared type by its name, or the schema of the type. -/
def Given (c : Catalog) (t : Ty) (s : Schema) : Prop :=
  (∃ i, t = .cls i ∧ s = Reference.schema (c.decl i).name) ∨ s = c.inOwnNames t (c.top t)

/-- What a type that is well named brings. -/
theorem ofType_of_mem_entries (ht : c.WellNamed t found) (hshared : sharedName? found = none)
    (hd : c.derive t = .ok d) :
    (∀ e ∈ (Request.body t).entriesAmong c found d, OfType c t e) ∧ Given c t (c.handedOut t d) ∧
      ∀ x ∈ (Inquiry.mk (.body t) found).claims c d, x.name = (c.decl x.index).name := by
  obtain ⟨hschema, hdefinitions⟩ := Catalog.derived_inOwnNames ht hshared hd
  have hown := fun n => Catalog.componentName?_eq_some (n := n) ht hshared hd
  refine ⟨fun e he => ?_, ?_, fun x hx => ?_⟩
  · rcases List.mem_append.1 he with he | he
    · obtain ⟨e', he', rfl⟩ := List.mem_map.1 he
      obtain ⟨u, hu, rfl⟩ := hdefinitions e' he'
      exact ⟨u, .inl hu, rfl, rfl⟩
    · obtain ⟨n, hn, rfl⟩ := List.mem_map.1 he
      obtain ⟨i, rfl, rfl, hdefinition⟩ := hown n (Option.mem_toList.1 hn)
      exact ⟨{ index := i }, .inr rfl, rfl, hdefinition⟩
  · rw [Catalog.handedOut]
    cases hn : c.componentName? t d with
    | none => exact .inr hschema
    | some n =>
        obtain ⟨i, rfl, rfl, -⟩ := hown n hn
        exact .inl ⟨i, rfl, rfl⟩
  · rcases List.mem_append.1 hx with hx | hx
    · obtain ⟨⟨u, hu, hname, hindex⟩, -⟩ := Catalog.mem_claimsIn_iff.1 hx
      rw [← hname, ← hindex]
      exact Catalog.nameIn_eq ht hshared hu
    · obtain ⟨n, hn, hx⟩ := List.mem_flatMap.1 hx
      obtain ⟨j, hj, rfl⟩ := List.mem_map.1 hx
      obtain ⟨k, rfl, rfl, -⟩ := hown n (Option.mem_toList.1 hn)
      rw [List.mem_singleton.1 hj]

/-- What a registry holds that was asked for types that are well named. -/
structure Named (c : Catalog) (ts : List Ty) (es : List Entry) (r : Registry) : Prop where
  records : r.Records es
  consistent : Consistent es
  entries : ∀ e ∈ es, ∃ t ∈ ts, OfType c t e
  usage : ∀ i s, r.usage.find? i = some s → ∃ t ∈ ts, c.identity t = i ∧ Given c t s

theorem named_empty (c : Catalog) (ts : List Ty) : Named c ts [] {} :=
  ⟨records_empty, .nil, by simp, by simp⟩

/-- One answer leaves a registry with nothing but named entries. -/
theorem Named.step (hr : r.Named c ts es) (ht : t ∈ ts) (hwell : c.WellNamed t found) {s : Schema}
    (h : (answerInquiry c ⟨.body t, found⟩).run.run r = (.ok s, r')) :
    (∃ es', r'.Named c ts (es ++ es')) ∧
      (∃ t' ∈ ts, c.identity t' = c.identity t ∧ Given c t' s) ∧
      ∀ x ∈ r.claims c ⟨.body t, found⟩, x.name = (c.decl x.index).name := by
  have hout := outcome_answerAmong (c := c) found hr.records hr.consistent (.body t)
  rw [answerInquiry] at h
  rw [h] at hout
  cases hout with
  | remembered s hs =>
      refine ⟨⟨[], by simpa using hr⟩, hr.usage _ _ hs, fun x hx => ?_⟩
      rw [claims_of_remembered (s := ⟨.body t, found⟩) hs] at hx
      exact absurd hx List.not_mem_nil
  | stored d r' new derived unshared consistent records usage =>
      obtain ⟨hentries, hgiven, hclaims⟩ := ofType_of_mem_entries hwell unshared derived
      refine ⟨⟨_, records, consistent, fun e he => ?_, fun i s hs => ?_⟩, ⟨t, ht, rfl, hgiven⟩,
        fun x hx => hclaims x (claims_of_new (s := ⟨.body t, found⟩) new derived ▸ hx)⟩
      · rcases List.mem_append.1 he with he | he
        · exact hr.entries e he
        · exact ⟨t, ht, hentries e he⟩
      · rw [usage, Request.remember, Table.find?_put] at hs
        split at hs
        · next heq =>
            obtain rfl := Option.some.inj hs
            exact ⟨t, ht, (eq_of_beq heq).symm, hgiven⟩
        · exact hr.usage i s hs

/-- Many answers leave a registry with nothing but named entries. -/
theorem Named.run {us : List Ty} {ts : List (Ty × Table String (List String))}
    (hr : r.Named c us es) (hts : ts.map Prod.fst ⊆ us) (hwell : ∀ x ∈ ts, c.WellNamed x.1 x.2)
    {xs : List (Request × Schema)} (h : (inquire c (bodies ts)).run.run r = (.ok xs, r')) :
    (∃ es', r'.Named c us es') ∧
      (∀ q s, (q, s) ∈ xs → ∃ t ∈ us, c.identity t = c.identity q.ty ∧ Given c t s) ∧
      ∀ x ∈ claimed c (bodies ts) r, x.name = (c.decl x.index).name := by
  induction ts generalizing r es xs with
  | nil =>
      obtain ⟨rfl, rfl⟩ := run_pure_ok h
      exact ⟨⟨es, hr⟩, by simp, by simp [bodies, claimed]⟩
  | cons t ts ih =>
      rw [bodies, List.map_cons] at h ⊢
      obtain ⟨s, rest, r₁, hs, hrest, rfl⟩ := run_inquire_cons_ok h
      obtain ⟨ht, hts⟩ := List.cons_subset.1 hts
      obtain ⟨hwell_t, hwell⟩ := List.forall_mem_cons.1 hwell
      obtain ⟨⟨es', hr₁⟩, hgiven, hclaims⟩ := hr.step ht hwell_t hs
      obtain ⟨hr', hgivens, hclaimed⟩ := ih hr₁ hts hwell hrest
      refine ⟨hr', fun q x hx => ?_, fun x hx => ?_⟩
      · rcases List.mem_cons.1 hx with hx | hx
        · obtain ⟨rfl, rfl⟩ := Prod.mk.inj hx
          exact hgiven
        · exact hgivens q x hx
      · rw [claimed, afterInquiry, hs] at hx
        rcases List.mem_append.1 hx with hx | hx
        · exact hclaims x hx
        · exact hclaimed x hx

/-- One type has one component.  Let a fresh registry be asked for types that are well named, and
whatever else was found in them.  Then each declared type that comes with them, nested or asked for
itself, is stored under its own name and under no other; a component is the definition of a declared
type under its own name; and in whatever is stored or given out, the references to a declared type
are to the component of its name. -/
theorem asked_one_component (c : Catalog) (ts : List (Ty × Table String (List String)))
    (hts : ∀ x ∈ ts, c.WellNamed x.1 x.2) (xs : List (Request × Schema)) (r : Registry)
    (h : (inquire c (bodies ts)).run.run {} = (.ok xs, r)) :
    (∀ x ∈ claimed c (bodies ts) {}, x.name = (c.decl x.index).name) ∧
    (∀ n s, r.schemas.find? n = some s → ∃ t ∈ ts.map Prod.fst, ∃ u,
      (u ∈ c.usesOf t ∨ t = .cls u.index) ∧ n = (c.decl u.index).name ∧
      s = c.inOwnNames t (c.definitionIn t u)) ∧
    ∀ q s, (q, s) ∈ xs → ∃ t ∈ ts.map Prod.fst, c.identity t = c.identity q.ty ∧
      ((∃ i, t = .cls i ∧ s = Reference.schema (c.decl i).name) ∨
        s = c.inOwnNames t (c.top t)) := by
  obtain ⟨⟨es, hr⟩, hgiven, hclaims⟩ :=
    (named_empty c (ts.map Prod.fst)).run (List.Subset.refl _) hts h
  refine ⟨hclaims, fun n s hs => ?_, hgiven⟩
  obtain ⟨e, he, rfl, rfl⟩ := hr.records.exists_of_schema hs
  obtain ⟨t, ht, u, hu, hname, hschema⟩ := hr.entries e he
  exact ⟨t, ht, u, hu, hname, hschema⟩

/-- Declared types of all kinds: an enumeration, a wrapper, a plain record and a recursive model. -/
def gallery : Catalog :=
  [{ name := "Color", qualname := "Color"
     form := .enum [("RED", .str "red"), ("BLUE", .str "blue")] none },
    { name := "Palette", qualname := "Palette", form := .root (.each .list (.cls 0)) },
    { name := "Point", qualname := "Point", form := .record [{ name := "x", ty := .scalar .int }] },
    { name := "Picture", qualname := "Picture"
      form := .model
        [{ name := "palette", ty := .cls 1 },
          { name := "corners", ty := .keyed .dict (.scalar .str) (.cls 2) },
          { name := "details", ty := .each .list (.cls 3) }]
        .ignored none [] }]

/-- Types of the gallery, some nested before they are asked for themselves, with all that is found
in them. -/
def galleryTypes : List (Ty × Table String (List String)) :=
  [.cls 1, .each .list (.cls 3), .cls 3, .cls 2, .cls 0].map fun t => (t, gallery.namedTypes t)

/-- Each type of the gallery is stored under its own name only. -/
theorem gallery_one_component : ∃ xs r,
    (inquire gallery (bodies galleryTypes)).run.run {} = (.ok xs, r) ∧
    (∀ x ∈ claimed gallery (bodies galleryTypes) {}, x.name = (gallery.decl x.index).name) ∧
    ∀ n s, r.schemas.find? n = some s → ∃ u t, n = (gallery.decl u.index).name ∧
      s = gallery.inOwnNames t (gallery.definitionIn t u) := by
  have hok : ((inquire gallery (bodies galleryTypes)).run.run {}).1.toOption.isSome = true := by
    decide +kernel
  obtain ⟨xs, hxs⟩ := Option.isSome_iff_exists.1 hok
  obtain ⟨r, hr⟩ : ∃ r, ((inquire gallery (bodies galleryTypes)).run.run {}).2 = r := ⟨_, rfl⟩
  have h : (inquire gallery (bodies galleryTypes)).run.run {} = (.ok xs, r) :=
    Prod.ext (toOption_eq_some_iff.1 hxs) hr
  have hts : ∀ x ∈ galleryTypes, gallery.WellNamed x.1 x.2 := by decide +kernel
  obtain ⟨hclaims, hstored, -⟩ := asked_one_component gallery galleryTypes hts xs r h
  refine ⟨xs, r, h, hclaims, fun n s hs => ?_⟩
  obtain ⟨t, -, u, -, hname, hschema⟩ := hstored n s hs
  exact ⟨u, t, hname, hschema⟩

/-- A box of integers, for which no component has a name that fits. -/
def intBox : Catalog :=
  [{ name := "Box[int]", qualname := "Box[int]", generic := some ("Box", "int")
     form := .model [{ name := "v", ty := .scalar .int }] .ignored none [] }]

/-- A type whose name does not fit has one component where it is asked for itself and another one
where it is nested. -/
theorem intBox_two_components :
    (claimed intBox [.exact intBox (.body (.cls 0)), .exact intBox (.body (.each .list (.cls 0)))]
      {}).map (fun x => (x.name, x.index)) = [("Box[int]", 0), ("Box_int_", 0)] ∧
    (asked intBox [.cls 0, .each .list (.cls 0)]).2.names = ["Box[int]", "Box_int_"] := by
  decide +kernel

end Registry
end ApiTree
