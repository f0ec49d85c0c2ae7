import ApiTree.Proofs.Schema.Closure
import ApiTree.Proofs.Schema.Entries

/-!
# ApiTree.Proofs.Schema.Ownership

Which types use which component.  A request claims a name for a type when the definition of the
type comes under it, or when the type is stored under it (`Request.claims`).  Definitions have
names of their own, and their owners are given by a search through the type that is asked for.

The search tells types apart by the ids of their objects.  A type that is made while the search
looks at its hints may get the id of one that is already gone, and is then passed over with all
that it leads to.  So what was found is a table of the inquiry (`Inquiry.found`) about which
nothing is known.  A claim is *credited* if its type was found under its name; a search that
misses nothing credits every claim by the name of the type
(`Registry.credited_of_mem_claims_exact`).

* `Registry.claims_have_one_identity` — types with credited claims for a name have one identity,
  that of the owner; an inquiry that would bring a second one is a conflict.
-/

namespace ApiTree

open Registry

/-- A request as it is answered: with the named types that were found in its type, by name. -/
structure Inquiry where
  request : Request
  found : Table String (List String)

/-- The inquiry of a search that takes object ids for types, none of which is used again, and so
finds all that there is. -/
def Inquiry.exact (c : Catalog) (q : Request) : Inquiry := ⟨q, c.namedTypes q.ty⟩

/-- A name that an inquiry uses for a declared type, with the identities of the types that it found
under the name. -/
structure Claim where
  name : String
  index : Nat
  found : List String
deriving DecidableEq

namespace Claim

/-- The identity for which the name is used. -/
def owner (x : Claim) : String := x.found.headD x.name

/-- The type of the claim was found under the name. -/
def Credited (c : Catalog) (x : Claim) : Prop := c.classIdentity x.index ∈ x.found

instance (c : Catalog) (x : Claim) : Decidable (x.Credited c) :=
  inferInstanceAs (Decidable (_ ∈ _))

/-- Where one type at most was found, a claim that is credited is made for its type. -/
theorem owner_eq {c : Catalog} {x : Claim} (hlength : x.found.length ≤ 1) (h : x.Credited c) :
    x.owner = c.classIdentity x.index := by
  obtain ⟨id, hid⟩ := List.length_eq_one_iff.1 (Nat.le_antisymm hlength (List.length_pos_of_mem h))
  rw [Credited, hid, List.mem_singleton] at h
  rw [owner, hid, List.headD_cons, h]

end Claim

namespace Catalog

variable {c : Catalog} {t : Ty} {i : Nat} {x : Claim} {d : Derived}
  {found : Table String (List String)}

/-! ## names and their owners -/

/-- Something is derived for types only that lead to no class without structure. -/
theorem isNamed_of_derive (hd : c.derive t = .ok d) (hi : i ∈ c.reachable t) :
    (c.form i).isNamed = true := by
  rw [derive] at hd
  obtain ⟨⟨⟩, hcheck, -⟩ := bind_eq_ok_iff.1 hd
  rw [checkUse] at hcheck
  split at hcheck
  · simp at hcheck
  · next hschema =>
      rw [Bool.not_eq_true', Bool.not_eq_false] at hschema
      exact List.all_eq_true.1 hschema i hi

/-- Where no two types share a name, a name is noted with one identity. -/
theorem length_of_unshared (h : sharedName? found = none) (n : String) :
    ((found.find? n).getD []).length ≤ 1 := by
  cases hn : found.find? n with
  | none => exact Nat.zero_le 1
  | some ids =>
      rw [sharedName?, Option.map_eq_none_iff, List.find?_eq_none] at h
      simpa using h _ (Table.mem_of_find? hn)

/-- The owner of a name is the first type that was found under it, or nobody but the name. -/
theorem ownerOf_eq (n : String) : ownerOf found n = ((found.find? n).getD []).headD n := by
  rw [ownerOf]
  cases found.find? n <;> rfl

/-! ## claims -/

/-- The name under which the definition of a use comes with a type. -/
def nameIn (c : Catalog) (t : Ty) (u : Use) : String :=
  ((c.namesOf t (c.usesOf t)).find? u).getD u.name

/-- The types whose definitions come with a type, under their names. -/
def claimsIn (c : Catalog) (t : Ty) (found : Table String (List String))
    (definitions : Table String Schema) : List Claim :=
  ((c.usesOf t).map fun u => ⟨c.nameIn t u, u.index, (found.find? (c.nameIn t u)).getD []⟩).filter
    (·.name ∈ definitions.keys)

/-- A claim is that of a use whose definition comes with the type. -/
theorem mem_claimsIn_iff {definitions : Table String Schema} :
    x ∈ c.claimsIn t found definitions ↔
      (∃ u ∈ c.usesOf t, c.nameIn t u = x.name ∧ u.index = x.index) ∧
        x.found = (found.find? x.name).getD [] ∧ x.name ∈ definitions.keys := by
  rw [claimsIn, List.mem_filter, List.mem_map, decide_eq_true_eq]
  constructor
  · rintro ⟨⟨u, hu, rfl⟩, hkey⟩
    dsimp only at hkey ⊢
    exact ⟨⟨u, hu, rfl, rfl⟩, rfl, hkey⟩
  · rintro ⟨⟨u, hu, hname, hindex⟩, hfound, hkey⟩
    obtain ⟨name, index, found'⟩ := x
    dsimp only at hname hindex hfound hkey ⊢
    subst hname hindex hfound
    exact ⟨⟨u, hu, rfl⟩, hkey⟩

end Catalog

/-- The claims of an inquiry when `d` is derived for it.  A type that is stored itself is stored
with its own identity, whatever was found. -/
def Inquiry.claims (c : Catalog) (d : Catalog.Derived) (s : Inquiry) : List Claim :=
  match s.request with
  | .body t => c.claimsIn t s.found d.definitions ++
      (c.componentName? t d).toList.flatMap fun n => t.heads.map fun i => ⟨n, i, [c.identity t]⟩
  | .parameter t => c.claimsIn t s.found d.definitions

namespace Registry

open Registering

variable {c : Catalog} {q : Request} {s : Inquiry} {ss : List Inquiry} {d : Catalog.Derived}
  {es es' : List Entry} {r r' : Registry} {x y : Claim}

/-- Answers an inquiry. -/
def answerInquiry (c : Catalog) (s : Inquiry) : Registering Schema :=
  answerAmong c s.found s.request

/-- The registry after an inquiry, whether or not it was answered. -/
def afterInquiry (c : Catalog) (r : Registry) (s : Inquiry) : Registry :=
  ((answerInquiry c s).run.run r).2

/-- An answer is that names are in conflict. -/
def isConflict : Except Fault Schema → Bool
  | .error (.conflict _) => true
  | _ => false

/-- None of the inquiries, one after the other, is a conflict.  Some may fail in another way. -/
def Undisputed (c : Catalog) : List Inquiry → Registry → Prop
  | [], _ => True
  | s :: ss, r => isConflict ((answerInquiry c s).run.run r).1 = false ∧
      Undisputed c ss (r.afterInquiry c s)

instance (c : Catalog) : (ss : List Inquiry) → (r : Registry) → Decidable (Undisputed c ss r)
  | [], _ => isTrue trivial
  | s :: ss, r =>
    have : Decidable (Undisputed c ss (r.afterInquiry c s)) := instDecidableUndisputed c ss _
    inferInstanceAs (Decidable (_ ∧ _))

/-- The claims of an inquiry in a registry, whether or not the names are free.  An answer that is
known uses no name. -/
def claims (c : Catalog) (r : Registry) (s : Inquiry) : List Claim :=
  match s.request.remembered? c r, s.request.derived c with
  | none, .ok d => s.claims c d
  | _, _ => []

/-- The claims of inquiries, one after the other. -/
def claimed (c : Catalog) : List Inquiry → Registry → List Claim
  | [], _ => []
  | s :: ss, r => r.claims c s ++ claimed c ss (r.afterInquiry c s)

/-- An answer that is known claims nothing. -/
theorem claims_of_remembered {a : Schema} (h : s.request.remembered? c r = some a) :
    r.claims c s = [] := by
  rw [claims, h]

/-- Where nothing can be derived nothing is claimed. -/
theorem claims_of_underived {f : Fault} (hd : s.request.derived c = .error f) :
    r.claims c s = [] := by
  rw [claims, hd]
  cases s.request.remembered? c r <;> rfl

/-- A new answer claims what comes with it. -/
theorem claims_of_new (h : s.request.remembered? c r = none) (hd : s.request.derived c = .ok d) :
    r.claims c s = s.claims c d := by
  rw [claims, h, hd]

/-- What is derived for a request is derived for its type. -/
theorem derived_eq_ok (hd : q.derived c = .ok d) : ∃ d', c.derive q.ty = .ok d' := by
  cases q with
  | body t => exact ⟨d, hd⟩
  | parameter t =>
      obtain ⟨d', hderive, -⟩ := derived_parameter_ok hd
      exact ⟨d', hderive⟩

/-- A search that misses nothing finds the type of every claim that is by the name of the type. -/
theorem credited_of_mem_claims_exact (hgenuine : c.Genuine q.ty) (hd : q.derived c = .ok d)
    (h : x ∈ (Inquiry.exact c q).claims c d) (hname : (c.decl x.index).name = x.name) :
    x.Credited c := by
  have hdefinitions {t : Ty} {ds : Table String Schema} (hty : q.ty = t)
      (h : x ∈ c.claimsIn t (c.namedTypes t) ds) : x.Credited c := by
    subst hty
    obtain ⟨d', hd'⟩ := derived_eq_ok hd
    obtain ⟨⟨u, hu, -, hindex⟩, hfound, -⟩ := Catalog.mem_claimsIn_iff.1 h
    have hreachable := hindex ▸ Catalog.mem_reachable_of_mem_usesOf hgenuine hu
    rw [Claim.Credited, hfound]
    exact Catalog.mem_namedTypes_iff.2
      ⟨x.index, hreachable, Catalog.isNamed_of_derive hd' hreachable, hname, rfl⟩
  cases q with
  | body t =>
      rcases List.mem_append.1 h with h | h
      · exact hdefinitions rfl h
      · -- a type that is stored itself is a declared type
        obtain ⟨n, hn, h⟩ := List.mem_flatMap.1 h
        obtain ⟨i, hi, rfl⟩ := List.mem_map.1 h
        cases t with
        | cls k =>
            rw [List.mem_singleton.1 hi]
            exact List.mem_singleton_self _
        | _ => simp [Catalog.componentName?] at hn
  | parameter t => exact hdefinitions rfl h

/-! ## runs -/

/-- A claim is entered for its owner, and one type at most was found for it. -/
structure Enters (es : List Entry) (x : Claim) : Prop where
  entry : ∃ e ∈ es, e.name = x.name ∧ e.identity = x.owner
  alone : x.found.length ≤ 1

theorem Enters.mono (h : Enters es x) (hsub : es ⊆ es') : Enters es' x :=
  ⟨h.entry.imp fun _ he => he.imp_left (@hsub _), h.alone⟩

/-- Names that come with one identity each are claimed for one owner each. -/
theorem Enters.owner_eq (hes : Consistent es) (hx : Enters es x) (hy : Enters es y)
    (hname : x.name = y.name) : x.owner = y.owner := by
  obtain ⟨a, ha, haname, haowner⟩ := hx.entry
  obtain ⟨b, hb, hbname, hbowner⟩ := hy.entry
  rw [← haowner, ← hbowner, hes a ha b hb (by rw [haname, hbname, hname])]

/-- Credited claims for one name are of one identity. -/
theorem Enters.classIdentity_eq (hes : Consistent es) (hx : Enters es x) (hy : Enters es y)
    (hname : x.name = y.name) (hcx : x.Credited c) (hcy : y.Credited c) :
    c.classIdentity x.index = c.classIdentity y.index := by
  rw [← Claim.owner_eq hx.alone hcx, ← Claim.owner_eq hy.alone hcy, hx.owner_eq hes hy hname]

/-- A claim by a definition is entered with the definitions. -/
theorem enters_of_mem_claimsIn {t : Ty} {found : Table String (List String)}
    {ds : Table String Schema} (hshared : sharedName? found = none)
    (h : x ∈ c.claimsIn t found ds) : Enters (entriesOfDefinitions found ds) x := by
  obtain ⟨-, hfound, hkey⟩ := Catalog.mem_claimsIn_iff.1 h
  obtain ⟨e, he, hname⟩ := List.mem_map.1 hkey
  refine ⟨⟨_, List.mem_map_of_mem he, hname, ?_⟩, hfound ▸ Catalog.length_of_unshared hshared _⟩
  rw [hname, Catalog.ownerOf_eq, Claim.owner, hfound]

/-- What an inquiry claims is entered with what it stores. -/
theorem enters_of_mem_claims (hshared : sharedName? s.found = none) (h : x ∈ s.claims c d) :
    Enters (s.request.entriesAmong c s.found d) x := by
  obtain ⟨q, found⟩ := s
  cases q with
  | body t =>
      rcases List.mem_append.1 h with h | h
      · exact (enters_of_mem_claimsIn hshared h).mono (List.subset_append_left _ _)
      · obtain ⟨n, hn, h⟩ := List.mem_flatMap.1 h
        obtain ⟨i, -, rfl⟩ := List.mem_map.1 h
        exact ⟨⟨_, List.mem_append_right _ (List.mem_map_of_mem hn), rfl, rfl⟩, Nat.le_refl 1⟩
  | parameter t => exact enters_of_mem_claimsIn hshared h

/-- Every claim of inquiries without conflict is entered with what the registry records. -/
theorem exists_records_of_claimed (hr : r.Records es) (hes : Consistent es)
    (h : Undisputed c ss r) : ∃ es', (ss.foldl (afterInquiry c) r).Records (es ++ es') ∧
      Consistent (es ++ es') ∧ ∀ x ∈ claimed c ss r, Enters es' x := by
  induction ss generalizing r es with
  | nil => exact ⟨[], by simpa using hr, by simpa using hes, by simp [claimed]⟩
  | cons s ss ih =>
      obtain ⟨hs, hss⟩ := h
      have hout := outcome_answerAmong (c := c) s.found hr hes s.request
      rw [← answerInquiry] at hout
      rw [List.foldl_cons, claimed]
      rw [afterInquiry] at hss ⊢
      generalize (answerInquiry c s).run.run r = o at hout hs hss
      cases hout with
      | remembered a hknown =>
          rw [claims_of_remembered hknown, List.nil_append]
          exact ih hr hes hss
      | underived f new hf =>
          rw [claims_of_underived hf, List.nil_append]
          exact ih hr hes hss
      | shared d k new derived hshared => exact nomatch hs
      | clash d k r' new derived unshared hclash => exact nomatch hs
      | stored d r₁ new derived unshared consistent records usage =>
          obtain ⟨es', hr', hes', hclaims⟩ := ih records consistent hss
          rw [List.append_assoc] at hr' hes'
          refine ⟨_, hr', hes', fun x hx => ?_⟩
          rw [claims_of_new new derived] at hx
          rcases List.mem_append.1 hx with hx | hx
          · exact (enters_of_mem_claims unshared hx).mono (List.subset_append_left _ _)
          · exact (hclaims x hx).mono (List.subset_append_right _ _)

/-- An inquiry with which a second identity claims a name is a conflict. -/
theorem conflict_of_claims {before : List Claim} (hr : r.Records es) (hes : Consistent es)
    (hbefore : ∀ x ∈ before, Enters es x) (hx : x ∈ before ++ r.claims c s)
    (hy : y ∈ before ++ r.claims c s) (hname : x.name = y.name) (hcx : x.Credited c)
    (hcy : y.Credited c) (hne : c.classIdentity x.index ≠ c.classIdentity y.index) :
    ∃ k r', (answerInquiry c s).run.run r = (.error (.conflict k), r') := by
  have hout := outcome_answerAmong (c := c) s.found hr hes s.request
  rw [← answerInquiry] at hout
  generalize (answerInquiry c s).run.run r = o at hout
  have hold (hnone : r.claims c s = []) : False := by
    rw [hnone, List.append_nil] at hx hy
    exact hne ((hbefore x hx).classIdentity_eq hes (hbefore y hy) hname hcx hcy)
  cases hout with
  | remembered a hs => exact (hold (claims_of_remembered hs)).elim
  | underived f new hf => exact (hold (claims_of_underived hf)).elim
  | shared d k new derived hshared => exact ⟨k, r, rfl⟩
  | clash d k r' new derived unshared hclash => exact ⟨k, r', rfl⟩
  | stored d r' new derived unshared consistent records usage =>
      have hall : ∀ z ∈ before ++ r.claims c s,
          Enters (es ++ s.request.entriesAmong c s.found d) z := by
        intro z hz
        rcases List.mem_append.1 hz with hz | hz
        · exact (hbefore z hz).mono (List.subset_append_left _ _)
        · rw [claims_of_new new derived] at hz
          exact (enters_of_mem_claims unshared hz).mono (List.subset_append_right _ _)
      exact absurd ((hall x hx).classIdentity_eq consistent (hall y hy) hname hcx hcy) hne

/-- Types do not share a component where they are found.  Let a registry that is fresh at first be
asked one thing after the other, whatever each inquiry found, and let none be a conflict.  The owner
of a name is the one for which every inquiry that claims it has claimed it, and for a claim that is
credited this is its type; so all types with credited claims for a name have one identity.  If one
more inquiry claims a name, or finds it claimed, with credit for types of two identities, it is a
conflict. -/
theorem claims_have_one_identity (c : Catalog) (ss : List Inquiry) (h : Undisputed c ss {}) :
    (∀ x ∈ claimed c ss {}, (ss.foldl (afterInquiry c) {}).owner x.name = .ok x.owner ∧
      (x.Credited c → x.owner = c.classIdentity x.index)) ∧
    (∀ x ∈ claimed c ss {}, ∀ y ∈ claimed c ss {}, x.name = y.name → x.Credited c →
      y.Credited c → c.classIdentity x.index = c.classIdentity y.index) ∧
    ∀ s r, r = ss.foldl (afterInquiry c) {} → ∀ x ∈ claimed c ss {} ++ r.claims c s,
      ∀ y ∈ claimed c ss {} ++ r.claims c s, x.name = y.name → x.Credited c → y.Credited c →
      c.classIdentity x.index ≠ c.classIdentity y.index →
      ∃ k r', (answerInquiry c s).run.run r = (.error (.conflict k), r') := by
  obtain ⟨es, hr, hes, hclaims⟩ := exists_records_of_claimed records_empty .nil h
  rw [List.nil_append] at hr hes
  refine ⟨fun x hx => ⟨?_, Claim.owner_eq (hclaims x hx).alone⟩, fun x hx y hy hname hcx hcy =>
    (hclaims x hx).classIdentity_eq hes (hclaims y hy) hname hcx hcy, ?_⟩
  · obtain ⟨e, he, hname, howner⟩ := (hclaims x hx).entry
    rw [owner, ← hname, hr.owner_eq hes he, howner]
  · rintro s r rfl x hx y hy
    exact conflict_of_claims hr hes hclaims hx hy

/-- An item, a cart of items, and an item of another scope. -/
def shop : Catalog :=
  [{ name := "Item", qualname := "Item"
     form := .model [{ name := "price", ty := .scalar .int }] .ignored none [] },
    { name := "Cart", qualname := "Cart"
      form := .model [{ name := "items", ty := .each .list (.cls 0) }] .ignored none [] },
    { name := "Item", qualname := "Archive.Item"
      form := .model [{ name := "year", ty := .scalar .int }] .ignored none [] }]

/-- Inquiries about items, each of which finds everything. -/
def shopInquiries : List Inquiry :=
  [.exact shop (.parameter (.each .set (.cls 0))), .exact shop (.body (.each .list (.cls 0))),
    .exact shop (.body (.cls 1))]

/-- A parameter with items, a list of items and a cart use one component for items; items of the
other scope have no place beside it. -/
theorem shop_claims : Undisputed shop shopInquiries {} ∧
    (shopInquiries.foldl (afterInquiry shop) {}).owner "Item" = .ok "api.Item" ∧
    ∃ k r', (answerInquiry shop (.exact shop (.body (.each .list (.cls 2))))).run.run
      (shopInquiries.foldl (afterInquiry shop) {}) = (.error (.conflict k), r') := by
  have h : Undisputed shop shopInquiries {} := by decide +kernel
  obtain ⟨howners, -, hconflict⟩ := claims_have_one_identity shop shopInquiries h
  have hitem : ⟨"Item", 0, ["api.Item"]⟩ ∈ claimed shop shopInquiries {} := by decide +kernel
  have hother : ⟨"Item", 2, ["api.Archive.Item"]⟩ ∈
      Registry.claims shop (shopInquiries.foldl (afterInquiry shop) {})
        (.exact shop (.body (.each .list (.cls 2)))) := by decide +kernel
  refine ⟨h, (howners _ hitem).1, ?_⟩
  exact hconflict _ _ rfl _ (List.mem_append_left _ hitem) ⟨"Item", 2, ["api.Archive.Item"]⟩
    (List.mem_append_right _ hother) rfl (by decide +kernel) (by decide +kernel)
    (by decide +kernel)

/-- Where the search passes over both items, their component is owned by its name, and they share
it. -/
example :
    let ss : List Inquiry :=
      [⟨.body (.each .list (.cls 0)), []⟩, ⟨.body (.each .list (.cls 2)), []⟩]
    Undisputed shop ss {} ∧ claimed shop ss {} = [⟨"Item", 0, []⟩, ⟨"Item", 2, []⟩] := by
  decide +kernel

/-- Two boxes of one generic declaration; neither has a name that fits a component. -/
def boxes : Catalog :=
  [{ name := "Box[Literal['<']]", qualname := "Box[Literal['<']]"
     generic := some ("Box", "Literal['<']")
     form := .model [{ name := "v", ty := .literal [.str "<"] }] .ignored none [] },
    { name := "Box[Literal['>']]", qualname := "Box[Literal['>']]"
      generic := some ("Box", "Literal['>']")
      form := .model [{ name := "v", ty := .literal [.str ">"] }] .ignored none [] }]

/-- Inquiries about lists of the two boxes, each of which finds everything. -/
def boxInquiries : List Inquiry :=
  [.exact boxes (.body (.each .list (.cls 0))), .exact boxes (.body (.each .list (.cls 1)))]

/-- The name under which a definition comes may be no name of a type.  Then it is owned by nobody
but itself, and types share it. -/
theorem boxes_share_component :
    Undisputed boxes boxInquiries {} ∧
      claimed boxes boxInquiries {} =
        [⟨"Box_Literal______", 0, []⟩, ⟨"Box_Literal______", 1, []⟩] ∧
      boxes.classIdentity 0 ≠ boxes.classIdentity 1 := by
  decide +kernel

end Registry
end ApiTree
