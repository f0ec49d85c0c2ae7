import ApiTree.Proofs.Table.Merge
import ApiTree.Ty.Reach
import Mathlib.Data.List.Nodup
import Mathlib.Logic.Relation

/-!
# ApiTree.Proofs.Ty.Reach

What the search for declared types finds.  Every round of `depthFirst` takes a node off its
stack, and each node that is new puts its successors there once; so with as many rounds as
there are nodes to begin with and successors altogether the stack runs empty, and by then
whatever was found has its successors among what was found.

* `exhausts_depthFirst` — with rounds enough the search is carried to its end.
* `Catalog.mem_reachable_iff` — the declared types that are found are those that a way leads to
  from the type.
* `Catalog.mem_namedTypes_iff` — the identities that are noted under a name are those of the
  types found that bear the name.
-/

namespace ApiTree

/-! ## the search -/

/-- A run of the search to its end, without a bound on its rounds: from a stack and what was found
to all that is found when the stack is empty. -/
inductive Exhausts {α : Type} (next : α → List α) : List α → List α → List α → Prop where
  | done {found : List α} : Exhausts next [] found found
  /-- A node that was found before is passed over. -/
  | known {i : α} {stack found all : List α} (hi : i ∈ found)
      (hrest : Exhausts next stack found all) : Exhausts next (i :: stack) found all
  /-- A node that is new puts its successors on the stack. -/
  | new {i : α} {stack found all : List α} (hi : i ∉ found)
      (hrest : Exhausts next (next i ++ stack) (found ++ [i]) all) :
      Exhausts next (i :: stack) found all

section Search

variable {α : Type} [BEq α] [LawfulBEq α] {next : α → List α} {rounds total : Nat}
  {stack found : List α}

omit [LawfulBEq α] in
/-- The search finds nothing but what a way leads to from the stack. -/
theorem exists_way_of_mem_depthFirst {x : α} (h : x ∈ depthFirst next rounds stack found) :
    x ∈ found ∨ ∃ i ∈ stack, Relation.ReflTransGen (fun a b => b ∈ next a) i x := by
  induction rounds generalizing stack found with
  | zero => exact .inl h
  | succ rounds ih =>
      cases stack with
      | nil => exact .inl h
      | cons i stack =>
          rw [depthFirst] at h
          split at h
          · refine (ih h).imp_right fun hway => ?_
            obtain ⟨j, hj, hway⟩ := hway
            exact ⟨j, List.mem_cons_of_mem _ hj, hway⟩
          · rcases ih h with hfound | ⟨j, hj, hway⟩
            · rcases List.mem_append.1 hfound with hfound | hx
              · exact .inl hfound
              · obtain rfl := List.mem_singleton.1 hx
                exact .inr ⟨x, List.mem_cons_self, .refl⟩
            · rcases List.mem_append.1 hj with hj | hj
              · exact .inr ⟨i, List.mem_cons_self, .head hj hway⟩
              · exact .inr ⟨j, List.mem_cons_of_mem _ hj, hway⟩

/-- With rounds enough the search is carried to its end.  The rounds that are left pay for the
stack and for the successors of the nodes that are still to be found. -/
theorem exhausts_depthFirst (htotal : ∀ l : List α, l.Nodup → (l.flatMap next).length ≤ total)
    (hnodup : found.Nodup)
    (hrounds : stack.length + total ≤ rounds + (found.flatMap next).length) :
    Exhausts next stack found (depthFirst next rounds stack found) := by
  induction rounds generalizing stack found with
  | zero =>
      have hpaid := htotal found hnodup
      have hempty : stack = [] := List.length_eq_zero_iff.1 (by omega)
      subst hempty
      exact .done
  | succ rounds ih =>
      cases stack with
      | nil => exact .done
      | cons i stack =>
          rw [List.length_cons] at hrounds
          rw [depthFirst]
          split
          · next hcontains =>
              have hi : i ∈ found := by simpa using hcontains
              exact .known hi (ih hnodup (by omega))
          · next hcontains =>
              have hi : i ∉ found := by simpa using hcontains
              have hnodup' : (found ++ [i]).Nodup := by simpa using hnodup.concat hi
              have hrounds' : (next i ++ stack).length + total ≤
                  rounds + ((found ++ [i]).flatMap next).length := by
                simp only [List.length_append, List.flatMap_append, List.flatMap_cons,
                  List.flatMap_nil, List.append_nil]
                omega
              exact .new hi (ih hnodup' hrounds')

omit [BEq α] [LawfulBEq α] in
theorem Exhausts.subset {all : List α} (h : Exhausts next stack found all) : found ⊆ all := by
  induction h with
  | done => exact List.Subset.refl _
  | known _ _ ih => exact ih
  | new _ _ ih => exact List.Subset.trans (List.subset_append_left _ _) ih

omit [BEq α] [LawfulBEq α] in
/-- At its end the search has found all that was on the stack, and the successors of all that it
found. -/
theorem Exhausts.settled {all : List α} (h : Exhausts next stack found all)
    (hsettled : ∀ i ∈ found, ∀ j ∈ next i, j ∈ found ∨ j ∈ stack) :
    stack ⊆ all ∧ ∀ i ∈ all, next i ⊆ all := by
  induction h with
  | done =>
      exact ⟨List.nil_subset _, fun i hi j hj => (hsettled i hi j hj).resolve_right (by simp)⟩
  | @known i stack found all hi hrest ih =>
      have hsettled' : ∀ k ∈ found, ∀ j ∈ next k, j ∈ found ∨ j ∈ stack := by
        intro k hk j hj
        rcases hsettled k hk j hj with hj | hj
        · exact .inl hj
        · rcases List.mem_cons.1 hj with rfl | hj
          · exact .inl hi
          · exact .inr hj
      obtain ⟨hstack, hclosed⟩ := ih hsettled'
      exact ⟨List.cons_subset.2 ⟨hrest.subset hi, hstack⟩, hclosed⟩
  | @new i stack found all hi hrest ih =>
      have hsettled' : ∀ k ∈ found ++ [i], ∀ j ∈ next k,
          j ∈ found ++ [i] ∨ j ∈ next i ++ stack := by
        intro k hk j hj
        rw [List.mem_append, List.mem_append]
        rcases List.mem_append.1 hk with hk | hk
        · rcases hsettled k hk j hj with hj | hj
          · exact .inl (.inl hj)
          · rcases List.mem_cons.1 hj with rfl | hj
            · exact .inl (.inr (List.mem_singleton_self j))
            · exact .inr (.inr hj)
        · obtain rfl := List.mem_singleton.1 hk
          exact .inr (.inl hj)
      obtain ⟨hstack, hclosed⟩ := ih hsettled'
      exact ⟨List.cons_subset.2
        ⟨hrest.subset (by simp), List.Subset.trans (List.subset_append_right _ _) hstack⟩, hclosed⟩

/-- With rounds enough the search from a stack finds exactly what a way leads to. -/
theorem mem_depthFirst_iff (htotal : ∀ l : List α, l.Nodup → (l.flatMap next).length ≤ total)
    (hrounds : stack.length + total ≤ rounds) (x : α) : x ∈ depthFirst next rounds stack [] ↔
      ∃ i ∈ stack, Relation.ReflTransGen (fun a b => b ∈ next a) i x := by
  constructor
  · exact fun h => (exists_way_of_mem_depthFirst h).resolve_left (by simp)
  · rintro ⟨i, hi, hway⟩
    have hpaid : stack.length + total ≤ rounds + (([] : List α).flatMap next).length := by
      simpa using hrounds
    obtain ⟨hstack, hclosed⟩ :=
      (exhausts_depthFirst htotal List.nodup_nil hpaid).settled (by simp)
    induction hway with
    | refl => exact hstack hi
    | tail _ hstep ih => exact hclosed _ ih hstep

end Search

/-- What distinct nodes lead to is counted among what some nodes lead to, if these are all that
lead anywhere. -/
theorem length_flatMap_le_of_subset {α : Type} [DecidableEq α] {next : α → List α} {l m : List α}
    (hl : l.Nodup) (hm : ∀ i ∈ l, next i ≠ [] → i ∈ m) :
    (l.flatMap next).length ≤ (m.flatMap next).length := by
  induction l generalizing m with
  | nil => simp
  | cons i l ih =>
      obtain ⟨hi, hl⟩ := List.nodup_cons.1 hl
      rw [List.flatMap_cons, List.length_append]
      by_cases hnext : next i = []
      · have hrest := ih hl fun j hj => hm j (List.mem_cons_of_mem _ hj)
        rw [hnext, List.length_nil]
        omega
      · have him : i ∈ m := hm i List.mem_cons_self hnext
        have hrest := ih (m := m.erase i) hl fun j hj hj' => by
          have hne : j ≠ i := fun heq => hi (heq ▸ hj)
          exact (List.mem_erase_of_ne hne).2 (hm j (List.mem_cons_of_mem _ hj) hj')
        have hcount := ((List.perm_cons_erase him).flatMap_right next).length_eq
        rw [List.flatMap_cons, List.length_append] at hcount
        omega

/-! ## declared types -/

namespace Ty

theorem mem_headsList {ts : List Ty} {i : Nat} : i ∈ headsList ts ↔ ∃ t ∈ ts, i ∈ t.heads := by
  induction ts with
  | nil => simp [headsList]
  | cons t ts ih => simp [headsList, ih]

theorem exists_mem_headsList {ts : List Ty} {p : Nat → Prop} :
    (∃ i ∈ headsList ts, p i) ↔ ∃ t ∈ ts, ∃ i ∈ t.heads, p i := by
  simp only [mem_headsList]
  constructor
  · rintro ⟨i, ⟨t, ht, hi⟩, hp⟩
    exact ⟨t, ht, i, hi, hp⟩
  · rintro ⟨t, ht, i, hi, hp⟩
    exact ⟨i, ⟨t, ht, hi⟩, hp⟩

end Ty

namespace Catalog

variable {c : Catalog} {t : Ty} {i j : Nat}

/-- Declared types that no declaration is at lead nowhere. -/
theorem next_of_length_le (h : c.length ≤ i) : c.next i = [] := by
  rw [next, form, decl, List.getElem?_eq_none h]
  rfl

/-- Each declaration has its parts once. -/
theorem length_flatMap_next_le {l : List Nat} (hl : l.Nodup) :
    (l.flatMap c.next).length ≤ (c.flatMap fun d => d.form.parts.flatMap Ty.heads).length := by
  have hall : (List.range c.length).flatMap c.next =
      c.flatMap fun d => d.form.parts.flatMap Ty.heads := by
    have hdecls : (List.range c.length).map c.decl = c :=
      List.ext_getElem (by simp) fun k hk _ => by
        simp [decl, List.getElem?_eq_getElem (show k < c.length by simpa using hk)]
    conv_rhs => rw [← hdecls, List.flatMap_map]
    rfl
  rw [← hall]
  refine length_flatMap_le_of_subset hl fun i _ hi => List.mem_range.2 ?_
  by_contra hle
  exact hi (next_of_length_le (Nat.le_of_not_lt hle))

/-- The search for the declared types that a type leads to is carried to its end. -/
theorem exhausts_reachable (c : Catalog) (t : Ty) :
    Exhausts c.next t.heads [] (c.reachable t) :=
  exhausts_depthFirst (fun _ hl => length_flatMap_next_le hl) List.nodup_nil (Nat.le_succ _)

/-- The declared types that are found from a type are those that a way leads to, from one that
stands in it and through the parts of declarations. -/
theorem mem_reachable_iff : i ∈ c.reachable t ↔
    ∃ j ∈ t.heads, Relation.ReflTransGen (fun a b => b ∈ c.next a) j i :=
  mem_depthFirst_iff (fun _ hl => length_flatMap_next_le hl) (Nat.le_succ _) i

/-- What stands in the declaration of a type that is found is found. -/
theorem mem_reachable_of_mem_next (hi : i ∈ c.reachable t) (hj : j ∈ c.next i) :
    j ∈ c.reachable t := by
  obtain ⟨k, hk, hway⟩ := mem_reachable_iff.1 hi
  exact mem_reachable_iff.2 ⟨k, hk, hway.tail hj⟩

/-- The table with a declared type noted under its name, if it has one. -/
def note (c : Catalog) (table : Table String (List String)) (i : Nat) :
    Table String (List String) :=
  if (c.form i).isNamed then
    let known := (table.find? (c.decl i).name).getD []
    let id := c.classIdentity i
    table.put (c.decl i).name (if known.contains id then known else known ++ [id])
  else table

theorem namedTypes_eq (c : Catalog) (t : Ty) : c.namedTypes t = (c.reachable t).foldl c.note [] :=
  rfl

theorem mem_note_iff {table : Table String (List String)} {n id : String} :
    id ∈ ((c.note table i).find? n).getD [] ↔ id ∈ (table.find? n).getD [] ∨
      (c.form i).isNamed = true ∧ (c.decl i).name = n ∧ c.classIdentity i = id := by
  rw [note]
  by_cases hnamed : (c.form i).isNamed = true
  · by_cases hname : (c.decl i).name = n
    · subst hname
      simp only [hnamed, if_true, Table.find?_put_self, Option.getD_some, true_and]
      split
      · next hknown =>
          have hmem : c.classIdentity i ∈ (table.find? (c.decl i).name).getD [] := by
            simpa using hknown
          exact ⟨.inl, fun h => h.elim (fun h => h) fun heq => heq ▸ hmem⟩
      · rw [List.mem_append, List.mem_singleton, eq_comm]
    · have hne : n ≠ (c.decl i).name := fun heq => hname heq.symm
      simp [hnamed, hname, Table.find?_put_of_ne _ _ hne]
  · simp [hnamed]

theorem mem_foldl_note_iff {is : List Nat} {table : Table String (List String)} {n id : String} :
    id ∈ ((is.foldl c.note table).find? n).getD [] ↔ id ∈ (table.find? n).getD [] ∨
      ∃ i ∈ is, (c.form i).isNamed = true ∧ (c.decl i).name = n ∧ c.classIdentity i = id := by
  induction is generalizing table with
  | nil => simp
  | cons i is ih => rw [List.foldl_cons, ih, mem_note_iff, List.exists_mem_cons_iff, or_assoc]

/-- The identities that are noted under a name are those of the types that are found and bear
the name. -/
theorem mem_namedTypes_iff {n id : String} : id ∈ ((c.namedTypes t).find? n).getD [] ↔
    ∃ i ∈ c.reachable t, (c.form i).isNamed = true ∧ (c.decl i).name = n ∧
      c.classIdentity i = id := by
  rw [namedTypes_eq, mem_foldl_note_iff]
  simp

end Catalog
end ApiTree
