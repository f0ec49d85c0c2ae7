import ApiTree.Proofs.Ty.Structural
import ApiTree.Schema.Order

/-!
# ApiTree.Proofs.Schema.Order

The declared types that stand in a structural type are named when its schema is written
(`Catalog.mem_named_progress`).  Laying a type out gives sites that are headed by the uses in
it (`Site.heads`); arranging keeps the heads of sites, and writing names them.
-/

namespace ApiTree

namespace Site

mutual

/-- The uses that a site is named or written for, without those in definitions. -/
def heads : Site → List Use
  | .named u => [u]
  | .written u _ _ => [u]
  | .repeated inner => headsAll inner

/-- The uses that sites are named or written for. -/
def headsAll : List Site → List Use
  | [] => []
  | s :: ss => heads s ++ headsAll ss

end

theorem headsAll_append (ss ts : List Site) : headsAll (ss ++ ts) = headsAll ss ++ headsAll ts := by
  induction ss with
  | nil => rfl
  | cons s ss ih => rw [List.cons_append, headsAll, headsAll, ih, List.append_assoc]

mutual

/-- A site with definitions in the place of names has the same heads. -/
theorem heads_resolve (kept : Nat → Bool) (outline : Nat → Outline) (s : Site) :
    heads (resolve kept outline s) = heads s := by
  cases s with
  | named u =>
      rw [resolve]
      split <;> rfl
  | written u extra inner => rfl
  | repeated inner => exact headsAll_resolveAll kept outline inner

/-- Resolving sites keeps the uses at them. -/
theorem headsAll_resolveAll (kept : Nat → Bool) (outline : Nat → Outline) (ss : List Site) :
    headsAll (resolveAll kept outline ss) = headsAll ss := by
  cases ss with
  | nil => rfl
  | cons s ss =>
      rw [resolveAll, headsAll, headsAll, heads_resolve kept outline s,
        headsAll_resolveAll kept outline ss]

end

end Site

/-! ## writing -/

namespace Progress

open Site

/-- Naming a use adds it to the named ones. -/
theorem mem_named_name {p : Progress} {u v : Use} :
    v ∈ (p.name u).named ↔ v ∈ p.named ∨ v = u := by
  rw [name]
  split
  · next h =>
      have hu : u ∈ p.named := by simpa using h
      exact ⟨.inl, fun hv => hv.elim id fun heq => heq ▸ hu⟩
  · simp

mutual

/-- Writing a site names its heads. -/
theorem mem_named_write {u : Use} (p : Progress) (s : Site) (h : u ∈ p.named ∨ u ∈ heads s) :
    u ∈ (write p s).named := by
  cases s with
  | named v => exact mem_named_name.2 (h.imp_right List.mem_singleton.1)
  | written v extra inner =>
      rw [write]
      split
      · exact mem_named_name.2 (h.imp_right List.mem_singleton.1)
      · refine mem_named_name.2 (h.imp ?_ List.mem_singleton.1)
        exact fun hu => mem_named_writeAll p inner (.inl hu)
  | repeated inner => exact mem_named_writeAll p inner h

/-- Writing sites names the uses at them. -/
theorem mem_named_writeAll {u : Use} (p : Progress) (ss : List Site)
    (h : u ∈ p.named ∨ u ∈ headsAll ss) : u ∈ (writeAll p ss).named := by
  cases ss with
  | nil => exact h.resolve_right (by simp [headsAll])
  | cons s ss =>
      rw [headsAll, List.mem_append] at h
      rcases h with hp | hs | hss
      · exact mem_named_writeAll _ ss (.inl (mem_named_write p s (.inl hp)))
      · exact mem_named_writeAll _ ss (.inl (mem_named_write p s (.inr hs)))
      · exact mem_named_writeAll _ ss (.inr hss)

end

end Progress

/-! ## laying out -/

namespace Catalog

open Site

variable {c : Catalog} {site : Use → Drafting (List Site)}

/-- Laying out a shape gives sites headed by a use. -/
def Heads (site : Use → Drafting (List Site)) (s : Shape) (u : Use) : Prop :=
  ∀ d, u ∈ headsAll ((s.sites site).run d).1

/-- The site of a declared type is that of its use. -/
theorem heads_siteAfter (lay : Nat → Drafting Unit) (u : Use) :
    Heads (siteAfter lay) (.declared u) u := by
  intro d
  simp only [Shape.sites, siteAfter, StateT.run_bind, StateT.run_get, pure_bind]
  -- the site is named or written, in either case for the use
  show u ∈ headsAll (Prod.fst (StateT.run (m := Id) _ ((lay u.index).run d).2))
  split <;> exact List.mem_singleton_self u

/-- The sites of shapes are those of each. -/
theorem mem_sitesOfAll {ss : List Shape} {s : Shape} {u : Use} (hs : s ∈ ss) (h : Heads site s u) :
    ∀ d, u ∈ headsAll ((Shape.sitesOfAll site ss).run d).1 := by
  induction ss with
  | nil => simp at hs
  | cons s' ss ih =>
      intro d
      rw [Shape.sitesOfAll]
      show u ∈ headsAll (_ ++ _)
      rw [headsAll_append, List.mem_append]
      rcases List.mem_cons.1 hs with rfl | hs
      · exact .inl (h d)
      · exact .inr (ih hs _)

/-- The sites of a union's members are those of each. -/
theorem heads_ofMembers {empty : Bool} {ss : List Shape} {s : Shape} {u : Use} (hs : s ∈ ss)
    (h : Heads site s u) : Heads site (.ofMembers empty ss) u := by
  match ss with
  | [] => simp at hs
  | [s'] =>
      obtain rfl := List.mem_singleton.1 hs
      cases empty <;> exact h
  | s' :: s'' :: ss => cases empty <;> exact mem_sitesOfAll hs h

/-- The declared types that stand in a structural type head its sites. -/
theorem heads_shape (hsite : ∀ u, Heads site (.declared u) u) {t : Ty} (ht : Ty.Structural c t)
    {i : Nat} (hi : i ∈ t.heads) : Heads site (c.shape t) { index := i } := by
  induction ht with
  | scalar _ => simp [Ty.heads] at hi
  | within _ => simp [Ty.intBetween, Ty.heads] at hi
  | literal _ _ => simp [Ty.heads] at hi
  | enum _ _ _ _ =>
      obtain rfl := List.mem_singleton.1 hi
      exact hsite _
  | each hk _ ih =>
      simp only [List.mem_cons, List.not_mem_nil, or_false] at hk
      obtain rfl | rfl | rfl := hk
      · exact ih hi
      · exact fun d => List.mem_append_left _ (ih hi d)
      · exact ih hi
  | tuple _ ih =>
      obtain ⟨t, ht, hi⟩ := Ty.mem_headsList.1 hi
      obtain ⟨k, hk⟩ := List.getElem?_of_mem ht
      have hmem := List.mem_of_getElem? ((getElem?_shapes (c := c) _ k).trans (congrArg _ hk))
      exact mem_sitesOfAll hmem (ih t ht hi)
  | keyed _ ih =>
      intro d
      show _ ∈ headsAll (_ ++ _)
      rw [headsAll_append, List.mem_append]
      exact .inr (ih hi _)
  | @union style ts _ _ ih =>
      obtain ⟨t, ht, hi⟩ := Ty.mem_headsList.1 hi
      have hnull : Ty.same (.scalar .null) t ≠ true := by
        intro hsame
        simp [eq_null_of_same hsame, Ty.heads] at hi
      have hmem : c.shape t ∈ c.shapesNotNull ts := by
        rw [shapesNotNull_eq]
        exact List.mem_map_of_mem (List.mem_filter.2 ⟨ht, by simpa using hnull⟩)
      exact heads_ofMembers hmem (ih t ht hi)

/-- The declared types that stand in a structural type are named when its schema is written. -/
theorem mem_named_progress {t : Ty} (ht : Ty.Structural c t) {i : Nat} (hi : i ∈ t.heads) :
    { index := i } ∈ (c.progress t).named := by
  rw [progress, Arrangement.progress]
  refine Progress.mem_named_writeAll _ _ (.inr ?_)
  show _ ∈ headsAll (resolveAll _ _ _)
  rw [headsAll_resolveAll]
  exact heads_shape (heads_siteAfter _) ht hi {}

end Catalog
end ApiTree
