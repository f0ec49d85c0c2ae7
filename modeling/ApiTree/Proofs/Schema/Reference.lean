import ApiTree.Proofs.Table.Merge
import ApiTree.Schema.Registry

/-!
# ApiTree.Proofs.Schema.Reference

Where references lead.  A schema leads into a list of names (`LeadsInto`) when every
reference in it, at any depth, is the reference to one of them.  A derived schema
is closed when it and its definitions lead into the names of its definitions.

* `Catalog.Derived.closed_inPlace` — putting the definition of a type in the place
  of a reference to it leaves nothing dangling, though the definition may go.
-/

namespace ApiTree

/-- Every reference in a schema, at any depth, is to one of the names. -/
def LeadsInto (names : List String) (s : Schema) : Prop :=
  ∀ ref ∈ Reference.all (.obj s), ∃ n ∈ names, ref = Reference.pathTo n

instance (names : List String) (s : Schema) : Decidable (LeadsInto names s) :=
  inferInstanceAs (Decidable (∀ ref ∈ _, ∃ n ∈ names, _))

theorem LeadsInto.mono {names more : List String} {s : Schema} (h : LeadsInto names s)
    (hsub : names ⊆ more) : LeadsInto more s := by
  intro ref href
  obtain ⟨n, hn, rfl⟩ := h ref href
  exact ⟨n, hsub hn, rfl⟩

namespace Reference

/-- A reference is the path to its target. -/
theorem eq_pathTo_of_target? {ref name : String} (h : target? ref = some name) :
    ref = pathTo name := by
  rw [target?] at h
  split at h
  · next hstem =>
      obtain ⟨rest, hrest⟩ := List.isPrefixOf_iff_prefix.1 hstem
      obtain rfl := Option.some.inj h
      apply String.toList_injective
      rw [pathTo, String.toList_append, String.toList_ofList, ← hrest, ← String.length_toList,
        List.drop_left]
  · simp at h

/-- The path to a name has the name as its target. -/
theorem target?_pathTo (name : String) : target? (pathTo name) = some name := by
  have hchars : (pathTo name).toList = stem.toList ++ name.toList := String.toList_append
  rw [target?, if_pos, hchars, ← String.length_toList, List.drop_left, String.ofList_toList]
  rw [hchars]
  exact List.isPrefixOf_iff_prefix.2 (List.prefix_append _ _)

/-- Different names have different paths. -/
theorem pathTo_injective : Function.Injective pathTo := fun a b h =>
  Option.some.inj ((target?_pathTo a).symm.trans ((congrArg target? h).trans (target?_pathTo b)))

/-- The reference to a name leads to it. -/
theorem leadsInto_schema {names : List String} {name : String} (h : name ∈ names) :
    LeadsInto names (schema name) := by
  intro ref href
  simp only [schema, all, allInMembers, List.append_nil, beq_self_eq_true, if_true,
    List.mem_singleton] at href
  exact ⟨name, h, href⟩

/-- The references of members are those of the first and of the others. -/
theorem allInMembers_cons (k : String) (v : Json) (ms : List (String × Json)) :
    allInMembers ((k, v) :: ms) =
      (match v with
        | .str ref => if k == "$ref" then [ref] else []
        | _ => []) ++ all v ++ allInMembers ms := by
  cases v <;> rfl

/-- The references in items are those of an item. -/
theorem mem_allInItems {xs : List Json} {ref : String} :
    ref ∈ allInItems xs ↔ ∃ x ∈ xs, ref ∈ all x := by
  induction xs with
  | nil => simp [allInItems]
  | cons x xs ih => simp [allInItems, ih]

/-- The references in members are those under `$ref`, and those in the values. -/
theorem mem_allInMembers {ms : List (String × Json)} {ref : String} :
    ref ∈ allInMembers ms ↔ ∃ e ∈ ms, (e.1 = "$ref" ∧ e.2 = .str ref) ∨ ref ∈ all e.2 := by
  induction ms with
  | nil => simp [allInMembers]
  | cons m ms ih =>
      obtain ⟨k, v⟩ := m
      rw [allInMembers_cons, List.mem_append, List.mem_append, ih, List.exists_mem_cons_iff]
      refine or_congr (or_congr_left ?_) Iff.rfl
      cases v with
      | str s =>
          by_cases hk : k = "$ref"
          · simp only [hk, beq_self_eq_true, if_true, List.mem_singleton, Json.str.injEq, true_and]
            exact eq_comm
          · simp [hk]
      | _ => simp

mutual

/-- A reference that is found in a value occurs in it. -/
theorem occurs_of_mem_all {ref : String} (j : Json) (h : ref ∈ all j) : occurs ref j = true := by
  cases j with
  | arr xs => exact occursInItems_of_mem xs h
  | obj ms => exact occursInMembers_of_mem ms h
  | _ => simp [all] at h

/-- A reference in items occurs in them. -/
theorem occursInItems_of_mem {ref : String} (xs : List Json) (h : ref ∈ allInItems xs) :
    occursInItems ref xs = true := by
  cases xs with
  | nil => simp [allInItems] at h
  | cons x xs =>
      rw [occursInItems, Bool.or_eq_true]
      rcases List.mem_append.1 h with h | h
      · exact .inl (occurs_of_mem_all x h)
      · exact .inr (occursInItems_of_mem xs h)

/-- A reference in members occurs in them. -/
theorem occursInMembers_of_mem {ref : String} (ms : List (String × Json))
    (h : ref ∈ allInMembers ms) : occursInMembers ref ms = true := by
  cases ms with
  | nil => simp [allInMembers] at h
  | cons m ms =>
      obtain ⟨k, v⟩ := m
      rw [occursInMembers, Bool.or_eq_true, Bool.or_eq_true]
      rw [allInMembers_cons, List.mem_append, List.mem_append] at h
      rcases h with (h | h) | h
      · refine .inl (.inl ?_)
        split at h
        · split at h
          · next hk => simp_all [Json.looseEq]
          · simp at h
        · simp at h
      · exact .inl (.inr (occurs_of_mem_all v h))
      · exact .inr (occursInMembers_of_mem ms h)

end

/-- A schema in which a reference does not occur leads into the other names. -/
theorem leadsInto_of_not_occurs {names others : List String} {name : String} {s : Schema}
    (h : LeadsInto names s) (ho : occurs (pathTo name) (.obj s) = false)
    (hothers : ∀ n ∈ names, n ≠ name → n ∈ others) : LeadsInto others s := by
  intro ref href
  obtain ⟨n, hn, rfl⟩ := h ref href
  refine ⟨n, hothers n hn ?_, rfl⟩
  rintro rfl
  simp [occurs_of_mem_all _ href] at ho

end Reference

namespace Catalog

/-- A derived schema and its definitions lead to nothing but the definitions. -/
structure Derived.Closed (d : Derived) : Prop where
  schema : LeadsInto d.definitions.keys d.schema
  definitions : ∀ e ∈ d.definitions, LeadsInto d.definitions.keys e.2

instance (d : Derived) : Decidable d.Closed :=
  decidable_of_iff (LeadsInto d.definitions.keys d.schema ∧
    ∀ e ∈ d.definitions, LeadsInto d.definitions.keys e.2)
    ⟨fun h => ⟨h.1, h.2⟩, fun h => ⟨h.schema, h.definitions⟩⟩

/-- Whatever is derived for a type is closed. -/
def Closes (c : Catalog) (t : Ty) : Prop := ∀ d, c.derive t = .ok d → d.Closed

instance (c : Catalog) (t : Ty) : Decidable (c.Closes t) :=
  match h : c.derive t with
  | .ok d => decidable_of_iff d.Closed (by simp [Closes, h])
  | .error _ => .isTrue (by simp [Closes, h])

/-- What is closed is so in place. -/
theorem Derived.closed_inPlace {d : Derived} (h : d.Closed) : (Registry.inPlace d).Closed := by
  rw [Registry.inPlace]
  split
  · next ref _ =>
      split
      · exact h
      · next name hname =>
          obtain rfl := Reference.eq_pathTo_of_target? hname
          split
          · next schema hschema =>
              have hmem := Table.mem_of_find? hschema
              have hleads := h.definitions _ hmem
              dsimp only
              split
              · exact ⟨hleads, h.definitions⟩
              · next hoccurs =>
                  rw [Bool.or_eq_true, not_or, Bool.not_eq_true, Bool.not_eq_true] at hoccurs
                  obtain ⟨hself, hothers⟩ := hoccurs
                  have hkeys : ∀ n ∈ d.definitions.keys, n ≠ name →
                      n ∈ Table.keys (d.definitions.filter (·.1 != name)) := by
                    intro n hn hne
                    obtain ⟨e, he, rfl⟩ := List.mem_map.1 hn
                    exact List.mem_map_of_mem (List.mem_filter.2 ⟨he, by simpa using hne⟩)
                  refine ⟨Reference.leadsInto_of_not_occurs hleads hself hkeys, fun e he => ?_⟩
                  have hnot := List.any_eq_false.1 hothers e he
                  exact Reference.leadsInto_of_not_occurs
                    (h.definitions e (List.mem_filter.1 he).1) (by simpa using hnot) hkeys
          · exact h
  · exact h

end Catalog
end ApiTree
