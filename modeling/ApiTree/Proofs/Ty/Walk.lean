import ApiTree.Proofs.Ty.Reach

/-!
# ApiTree.Proofs.Ty.Walk

The search for named types against the graph of types.  A type has as its parts what stands
under its notes, its arguments, and what stands in its declaration (`Catalog.HasPart`); a way
through parts may come back to where it was, since declarations may refer to each other in a
circle.

* `Catalog.leadsTo_cls_iff` — the search finds the declared types that a way through parts leads
  to.
* `Catalog.namedTypes_exact` — the search comes to its end, and its table has under each name the
  identities of the named types that a way leads to and that bear the name, each identity once.
-/

namespace ApiTree
namespace Catalog

/-- The second type is a part of the first: the type below its notes, one of its arguments, or
one that stands in its declaration. -/
inductive HasPart (c : Catalog) : Ty → Ty → Prop where
  | base {t : Ty} {notes : List Note} : HasPart c (.annotated t notes) t
  | item {k : Collector} {t : Ty} : HasPart c (.each k t) t
  | place {ts : List Ty} {t : Ty} (h : t ∈ ts) : HasPart c (.tuple ts) t
  | key {k : Keyed} {t u : Ty} : HasPart c (.keyed k t u) t
  | value {k : Keyed} {t u : Ty} : HasPart c (.keyed k t u) u
  | member {style : UnionStyle} {ts : List Ty} {t : Ty} (h : t ∈ ts) :
    HasPart c (.union style ts) t
  | declared {i : Nat} {t : Ty} (h : t ∈ (c.form i).parts) : HasPart c (.cls i) t

/-- A way through parts goes from the first type to the second. -/
def LeadsTo (c : Catalog) : Ty → Ty → Prop := Relation.ReflTransGen c.HasPart

/-- The declared type has a component of its own, under the name and with the identity. -/
structure Bears (c : Catalog) (i : Nat) (name id : String) : Prop where
  named : (c.form i).isNamed = true
  name_eq : (c.decl i).name = name
  identity_eq : c.classIdentity i = id

variable {c : Catalog} {t u : Ty} {i j : Nat}

/-! ## ways through parts -/

/-- What stands in a part is found from the type. -/
theorem mem_reachable_of_hasPart (h : c.HasPart t u) (hi : i ∈ c.reachable u) :
    i ∈ c.reachable t := by
  obtain ⟨j, hj, hway⟩ := mem_reachable_iff.1 hi
  rw [mem_reachable_iff]
  cases h with
  | base => exact ⟨j, hj, hway⟩
  | item => exact ⟨j, hj, hway⟩
  | place h => exact ⟨j, Ty.mem_headsList.2 ⟨u, h, hj⟩, hway⟩
  | key => exact ⟨j, List.mem_append_left _ hj, hway⟩
  | value => exact ⟨j, List.mem_append_right _ hj, hway⟩
  | member h => exact ⟨j, Ty.mem_headsList.2 ⟨u, h, hj⟩, hway⟩
  | @declared k _ h =>
      exact ⟨k, List.mem_singleton_self k, .head (List.mem_flatMap.2 ⟨u, h, hj⟩) hway⟩

/-- A way leads from a type to each declared type that stands in it. -/
theorem leadsTo_of_mem_heads {t : Ty} (h : i ∈ t.heads) : c.LeadsTo t (.cls i) := by
  match t with
  | .nothing => simp [Ty.heads] at h
  | .scalar _ => simp [Ty.heads] at h
  | .bare _ => simp [Ty.heads] at h
  | .literal _ => simp [Ty.heads] at h
  | .cls j =>
      obtain rfl : i = j := List.mem_singleton.1 h
      exact .refl
  | .each _ t => exact .head .item (leadsTo_of_mem_heads (t := t) h)
  | .tuple ts =>
      obtain ⟨t, ht, hi⟩ := Ty.mem_headsList.1 h
      exact .head (.place ht) (leadsTo_of_mem_heads hi)
  | .keyed _ t u =>
      rcases List.mem_append.1 h with hi | hi
      · exact .head .key (leadsTo_of_mem_heads hi)
      · exact .head .value (leadsTo_of_mem_heads hi)
  | .union _ ts =>
      obtain ⟨t, ht, hi⟩ := Ty.mem_headsList.1 h
      exact .head (.member ht) (leadsTo_of_mem_heads hi)
  | .annotated t _ => exact .head .base (leadsTo_of_mem_heads (t := t) h)
termination_by sizeOf t

/-- A way leads from a declared type to each that stands in its declaration. -/
theorem leadsTo_of_mem_next (h : j ∈ c.next i) : c.LeadsTo (.cls i) (.cls j) := by
  obtain ⟨t, ht, hj⟩ := List.mem_flatMap.1 h
  exact .head (.declared ht) (leadsTo_of_mem_heads hj)

/-- The search finds exactly the declared types that a way through parts leads to. -/
theorem leadsTo_cls_iff : c.LeadsTo t (.cls i) ↔ i ∈ c.reachable t := by
  constructor
  · intro h
    induction h using Relation.ReflTransGen.head_induction_on with
    | refl => exact mem_reachable_iff.2 ⟨i, List.mem_singleton_self i, .refl⟩
    | head hpart _ ih => exact mem_reachable_of_hasPart hpart ih
  · intro h
    obtain ⟨j, hj, hway⟩ := mem_reachable_iff.1 h
    induction hway with
    | refl => exact leadsTo_of_mem_heads hj
    | tail hway hstep ih =>
        have hleads := ih (mem_reachable_iff.2 ⟨j, hj, hway⟩)
        exact hleads.trans (leadsTo_of_mem_next hstep)

/-! ## the table of names -/

/-- A table has each name once, and each identity once under its name. -/
def Distinct (table : Table String (List String)) : Prop :=
  table.keys.Nodup ∧ ∀ n, ((table.find? n).getD []).Nodup

theorem Distinct.note {table : Table String (List String)} (h : Distinct table) (i : Nat) :
    Distinct (c.note table i) := by
  obtain ⟨hkeys, hids⟩ := h
  rw [Catalog.note]
  split
  · refine ⟨Table.nodup_keys_put hkeys _ _, fun n => ?_⟩
    rw [Table.find?_put]
    split
    · split
      · exact hids _
      · next hnew =>
          have hnodup := (hids (c.decl i).name).concat (by simpa using hnew)
          simpa using hnodup
    · exact hids n
  · exact ⟨hkeys, hids⟩

theorem distinct_namedTypes (c : Catalog) (t : Ty) : Distinct (c.namedTypes t) := by
  have hfold : ∀ (is : List Nat) (table : Table String (List String)), Distinct table →
      Distinct (is.foldl c.note table) := by
    intro is
    induction is with
    | nil => exact fun _ h => h
    | cons i is ih => exact fun table h => ih _ (h.note i)
  exact hfold _ _ ⟨List.nodup_nil, fun _ => List.nodup_nil⟩

/-- A name comes into the table with the first type that bears it. -/
theorem mem_keys_note_iff {table : Table String (List String)} {n : String} :
    n ∈ (c.note table i).keys ↔
      n ∈ table.keys ∨ (c.form i).isNamed = true ∧ (c.decl i).name = n := by
  rw [note]
  split
  · next hnamed => simp [Table.mem_keys_put, hnamed, eq_comm, or_comm]
  · next hnamed => simp [hnamed]

theorem mem_keys_foldl_note_iff {is : List Nat} {table : Table String (List String)} {n : String} :
    n ∈ (is.foldl c.note table).keys ↔ n ∈ table.keys ∨
      ∃ i ∈ is, (c.form i).isNamed = true ∧ (c.decl i).name = n := by
  induction is generalizing table with
  | nil => simp
  | cons i is ih =>
      rw [List.foldl_cons, ih, mem_keys_note_iff, List.exists_mem_cons_iff, or_assoc]

/-- The search for named types is exact, circles among the declarations or not: it comes to its
end, and its table has a name just if a way through parts leads to a named type that bears it, and
under the name the identities of those types, each once. -/
theorem namedTypes_exact (c : Catalog) (t : Ty) :
    Exhausts c.next t.heads [] (c.reachable t) ∧ (c.namedTypes t).keys.Nodup ∧
      ∀ name, (name ∈ (c.namedTypes t).keys ↔ ∃ i id, c.LeadsTo t (.cls i) ∧ c.Bears i name id) ∧
        (((c.namedTypes t).find? name).getD []).Nodup ∧
        ∀ id, id ∈ ((c.namedTypes t).find? name).getD [] ↔
          ∃ i, c.LeadsTo t (.cls i) ∧ c.Bears i name id := by
  obtain ⟨hkeys, hids⟩ := distinct_namedTypes c t
  refine ⟨exhausts_reachable c t, hkeys, fun name => ⟨?_, hids name, fun id => ?_⟩⟩
  · rw [namedTypes_eq, mem_keys_foldl_note_iff]
    simp only [Table.keys_nil, List.not_mem_nil, false_or]
    constructor
    · rintro ⟨i, hi, hnamed, hname⟩
      exact ⟨i, c.classIdentity i, leadsTo_cls_iff.2 hi, ⟨hnamed, hname, rfl⟩⟩
    · rintro ⟨i, _, hway, hbears⟩
      exact ⟨i, leadsTo_cls_iff.1 hway, hbears.named, hbears.name_eq⟩
  · rw [mem_namedTypes_iff]
    constructor
    · rintro ⟨i, hi, hnamed, hname, hid⟩
      exact ⟨i, leadsTo_cls_iff.2 hi, ⟨hnamed, hname, hid⟩⟩
    · rintro ⟨i, hway, hbears⟩
      exact ⟨i, leadsTo_cls_iff.1 hway, hbears.named, hbears.name_eq, hbears.identity_eq⟩

/-- Two models that refer to each other, the second one with the name of the first in another
scope: the name has both identities. -/
example :
    let node (qualname : String) (other : Nat) : Decl :=
      { name := "Node", qualname, form := .model
          [{ name := "next", ty := .each .list (.annotated (.cls other) []) }] .ignored none [] }
    namedTypes [node "Node" 1, node "Inner.Node" 0] (.cls 0) =
      [("Node", [scope ++ ".Node", scope ++ ".Inner.Node"])] := by
  decide +kernel

end Catalog
end ApiTree
