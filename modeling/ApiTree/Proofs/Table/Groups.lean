import ApiTree.Proofs.Table.Merge
import Mathlib.Data.List.Induction

/-!
# ApiTree.Proofs.Table.Groups

Tables that hold what the elements of a list come to, one entry for each key of
an element and in the order in which the keys first occur.

* `Table.Groups.mergeM` — a merge of two such tables holds what the two lists
  come to one after the other, if combined values do;
* `Table.Groups.exists_of_mergeM_ok` — a merge has combined every two values of
  one key;
* `Table.groupM` — such a table made group by group, in one go;
* `Table.Groups.unique` — there is one such table, if groups come to one value.
-/

namespace ApiTree

section Group

variable {α κ : Type} [DecidableEq κ] {f : α → κ} {xs : List α}

/-- A group has the elements with its key. -/
theorem mem_group_iff {k : κ} {x : α} : x ∈ xs.filter (f · = k) ↔ x ∈ xs ∧ f x = k := by
  rw [List.mem_filter, decide_eq_true_iff]

/-- Elements of one group have one key. -/
theorem eq_of_mem_group {ys : List α} {k : κ} : ∀ x ∈ xs.filter (f · = k),
    ∀ y ∈ ys.filter (f · = k), f x = f y := by
  intro x hx y hy
  rw [(mem_group_iff.1 hx).2, (mem_group_iff.1 hy).2]

/-- Elements of one value of `f` are related if they are in each group. -/
theorem pairwise_of_groups {R : α → α → Prop} (h : ∀ x ∈ xs, (xs.filter (f · = f x)).Pairwise R) :
    xs.Pairwise fun a b => f a = f b → R a b := by
  induction xs with
  | nil => exact List.Pairwise.nil
  | cons x xs ih =>
      refine List.pairwise_cons.2 ⟨fun y hy hxy => ?_, ih fun y hy => ?_⟩
      · have hx := h x List.mem_cons_self
        rw [List.filter_cons_of_pos (by simp)] at hx
        exact (List.pairwise_cons.1 hx).1 y (mem_group_iff.2 ⟨hy, hxy.symm⟩)
      · exact (h y (List.mem_cons_of_mem _ hy)).sublist ((List.sublist_cons_self x xs).filter _)

end Group

section EraseDups

variable {α : Type} [BEq α] [LawfulBEq α]

/-- One more element is kept if it is new. -/
theorem eraseDups_concat (xs : List α) (x : α) :
    (xs ++ [x]).eraseDups = if x ∈ xs then xs.eraseDups else xs.eraseDups ++ [x] := by
  rw [List.eraseDups_append]
  by_cases h : x ∈ xs <;> simp [List.removeAll, List.eraseDups_cons, h]

/-- Without its repetitions a list repeats nothing. -/
theorem nodup_eraseDups (xs : List α) : xs.eraseDups.Nodup := by
  induction xs using List.reverseRecOn with
  | nil => simp
  | append_singleton xs x ih =>
      rw [eraseDups_concat]
      split
      · exact ih
      · next h => exact ih.append (List.nodup_singleton x) (by simpa using h)

theorem filter_eraseDups (p : α → Bool) (xs : List α) :
    xs.eraseDups.filter p = (xs.filter p).eraseDups := by
  induction xs using List.reverseRecOn with
  | nil => rfl
  | append_singleton xs x ih =>
      by_cases hp : p x = true <;> by_cases hx : x ∈ xs <;>
        simp [eraseDups_concat, hp, hx, ih]

/-- Of two lists what is new in the second comes after the first. -/
theorem eraseDups_append_eq [DecidableEq α] (xs ys : List α) :
    (xs ++ ys).eraseDups = xs.eraseDups ++ ys.eraseDups.filter (· ∉ xs) := by
  rw [List.eraseDups_append, filter_eraseDups, List.removeAll]
  congr 3
  funext x
  simp

end EraseDups

namespace Table

variable {κ α β ε : Type} [BEq κ] [LawfulBEq κ] [DecidableEq κ]

/-- A table holds, under the keys of the elements of a list, values that stand
for the elements of each key. -/
structure Groups (key : β → κ) (For : α → List β → Prop) (t : Table κ α) (xs : List β) :
    Prop where
  keys : t.keys = (xs.map key).eraseDups
  values : ∀ k v, t.find? k = some v → For v (xs.filter (key · = k))

namespace Groups

variable {key : β → κ} {For : α → List β → Prop} {t u r : Table κ α} {xs ys : List β}
  {f : κ → α → α → Except ε α}

/-- A table of groups repeats no key. -/
theorem nodup_keys (h : Groups key For t xs) : t.keys.Nodup := h.keys ▸ nodup_eraseDups _

/-- A table of groups has the keys of the elements. -/
theorem find?_isSome_iff (h : Groups key For t xs) (k : κ) :
    (∃ v, t.find? k = some v) ↔ ∃ x ∈ xs, key x = k := by
  rw [← mem_keys_iff, h.keys, List.mem_eraseDups, List.mem_map]

/-- The key of an element is there. -/
theorem exists_find? (h : Groups key For t xs) {x : β} (hx : x ∈ xs) :
    ∃ v, t.find? (key x) = some v := (h.find?_isSome_iff (key x)).2 ⟨x, hx, rfl⟩

theorem group_ne_nil (h : Groups key For t xs) {k : κ} {v : α} (hv : t.find? k = some v) :
    xs.filter (key · = k) ≠ [] := by
  obtain ⟨x, hx, hk⟩ := (h.find?_isSome_iff k).1 ⟨v, hv⟩
  exact List.ne_nil_of_mem (mem_group_iff.2 ⟨hx, hk⟩)

theorem group_eq_nil (h : Groups key For t xs) {k : κ} (hk : t.find? k = none) :
    xs.filter (key · = k) = [] := by
  refine List.filter_eq_nil_iff.2 fun x hx => ?_
  rw [decide_eq_true_iff]
  rintro rfl
  obtain ⟨v, hv⟩ := h.exists_find? hx
  simp [hk] at hv

omit [LawfulBEq κ] in
theorem nil : Groups key For [] [] := ⟨rfl, by simp⟩

theorem singleton {x : β} {v : α} (h : For v [x]) : Groups key For [(key x, v)] [x] where
  keys := by simp [Table.keys, List.eraseDups_cons]
  values := by
    intro k w hw
    rw [find?_cons] at hw
    split at hw
    · next hk =>
        obtain rfl := Option.some.inj hw
        obtain rfl := eq_of_beq hk
        simpa using h
    · simp at hw

/-- Values changed one by one stand for what the changed values stand for. -/
theorem mapValues {γ : Type} {F : γ → List β → Prop} {g : κ → α → γ} (h : Groups key For t xs)
    (hg : ∀ k v, t.find? k = some v → For v (xs.filter (key · = k)) →
      F (g k v) (xs.filter (key · = k))) :
    Groups key F (t.mapValues g) xs where
  keys := by rw [keys_mapValues, h.keys]
  values := by
    intro k w hw
    rw [find?_mapValues] at hw
    obtain ⟨v, hv, rfl⟩ := Option.map_eq_some_iff.1 hw
    exact hg k v hv (h.values k v hv)

omit [LawfulBEq κ] in
/-- The same values stand for changed elements, if elements keep their keys. -/
theorem map {γ : Type} {key' : γ → κ} {F : α → List γ → Prop} {g : β → γ}
    (h : Groups key For t xs) (hkey : ∀ x, key' (g x) = key x)
    (hg : ∀ k v, t.find? k = some v → For v (xs.filter (key · = k)) →
      F v ((xs.filter (key · = k)).map g)) : Groups key' F t (xs.map g) where
  keys := by simpa [Function.comp_def, hkey] using h.keys
  values := by
    intro k v hv
    rw [List.filter_map]
    simpa [Function.comp_def, hkey] using hg k v hv (h.values k v hv)

/-- What a merge of two tables holds, where values stand for elements in different ways. -/
theorem mergeM_of {Left Right : α → List β → Prop} (ht : Groups key Left t xs)
    (hu : Groups key Right u ys) (h : t.mergeM f u = .ok r)
    (hleft : ∀ k v, t.find? k = some v → u.find? k = none → For v (xs.filter (key · = k)))
    (hright : ∀ k w, t.find? k = none → u.find? k = some w → For w (ys.filter (key · = k)))
    (hf : ∀ k v w x, t.find? k = some v → u.find? k = some w → f k v w = .ok x →
      For x (xs.filter (key · = k) ++ ys.filter (key · = k))) :
    Groups key For r (xs ++ ys) where
  keys := by
    rw [keys_mergeM hu.nodup_keys h, ht.keys, hu.keys, List.map_append, eraseDups_append_eq]
    congr 2
    funext k
    simp
  values := by
    intro k z hz
    have hm := find?_mergeM hu.nodup_keys h k
    rw [List.filter_append]
    rw [hz] at hm
    cases hv : t.find? k with
    | none =>
        rw [ht.group_eq_nil hv, List.nil_append]
        rw [hv] at hm
        cases hw : u.find? k with
        | none => rw [hw] at hm; cases hm
        | some w =>
            rw [hw] at hm
            cases hm
            exact hright k _ hv hw
    | some v =>
        rw [hv] at hm
        cases hw : u.find? k with
        | none =>
            rw [hw] at hm
            cases hm
            rw [hu.group_eq_nil hw, List.append_nil]
            exact hleft k _ hv hw
        | some w =>
            rw [hw] at hm
            cases hm with
            | both hx => exact hf k v w z hv hw hx

/-- Tables of groups merge to one of the groups together. -/
theorem mergeM (ht : Groups key For t xs) (hu : Groups key For u ys) (h : t.mergeM f u = .ok r)
    (hf : ∀ k v w x, t.find? k = some v → u.find? k = some w → f k v w = .ok x →
      For x (xs.filter (key · = k) ++ ys.filter (key · = k))) :
    Groups key For r (xs ++ ys) :=
  ht.mergeM_of hu h (fun k v hv _ => ht.values k v hv) (fun k w _ hw => hu.values k w hw) hf

/-- Groups that meet in a merge have combined. -/
theorem exists_of_mergeM_ok (ht : Groups key For t xs) (hu : Groups key For u ys)
    (h : t.mergeM f u = .ok r) {x y : β} (hx : x ∈ xs) (hy : y ∈ ys) (hk : key x = key y) :
    ∃ v w z, t.find? (key x) = some v ∧ u.find? (key x) = some w ∧ f (key x) v w = .ok z := by
  obtain ⟨v, hv⟩ := ht.exists_find? hx
  obtain ⟨w, hw⟩ := hk ▸ hu.exists_find? hy
  have hm := find?_mergeM hu.nodup_keys h (key x)
  rw [hv, hw] at hm
  generalize r.find? (key x) = z at hm
  cases hm with
  | both hz => exact ⟨v, w, _, hv, hw, hz⟩

end Groups

/-- The table of what `make` makes of the elements of each key. -/
def groupM (key : β → κ) (make : κ → List β → Except ε α) (xs : List β) :
    Except ε (Table κ α) :=
  (xs.map key).eraseDups.mapM fun k => do return (k, ← make k (xs.filter (key · = k)))

section GroupM

variable {key : β → κ} {make : κ → List β → Except ε α} {t : Table κ α} {xs : List β}

omit [DecidableEq κ] in
/-- A table that is made key by key has what was made for each. -/
theorem mapM_entry_ok {f : κ → Except ε α} {ks : List κ} (hn : ks.Nodup)
    (h : ks.mapM (fun k => do return (k, ← f k)) = .ok t) :
    t.keys = ks ∧ ∀ k v, t.find? k = some v → f k = .ok v := by
  induction ks generalizing t with
  | nil =>
      obtain rfl := Except.ok.inj h
      simp
  | cons k ks ih =>
      obtain ⟨hk, hn⟩ := List.nodup_cons.1 hn
      rw [List.mapM_cons] at h
      obtain ⟨e, he, h⟩ := bind_eq_ok_iff.1 h
      obtain ⟨v, hv, he⟩ := bind_eq_ok_iff.1 he
      obtain ⟨rest, hrest, h⟩ := bind_eq_ok_iff.1 h
      obtain rfl := pure_eq_ok_iff.1 he
      obtain rfl := pure_eq_ok_iff.1 h
      obtain ⟨hkeys, hvalues⟩ := ih hn hrest
      refine ⟨by rw [keys_cons, hkeys], fun l w hw => ?_⟩
      rw [find?_cons] at hw
      split at hw
      · next hl =>
          obtain rfl := Option.some.inj hw
          rwa [eq_of_beq hl]
      · exact hvalues l w hw

/-- Each entry of a grouped table is what its group makes. -/
theorem groups_of_groupM (h : groupM key make xs = .ok t) :
    t.keys = (xs.map key).eraseDups ∧
      ∀ k v, t.find? k = some v → make k (xs.filter (key · = k)) = .ok v :=
  mapM_entry_ok (nodup_eraseDups _) h

/-- Groups can be put into a table when something can be made of each. -/
theorem exists_groupM (h : ∀ x ∈ xs, ∃ v, make (key x) (xs.filter (key · = key x)) = .ok v) :
    ∃ t, groupM key make xs = .ok t := by
  have hmap : ∀ ks : List κ, (∀ k ∈ ks, k ∈ xs.map key) →
      ∃ t, ks.mapM (fun k => do return (k, ← make k (xs.filter (key · = k)))) = .ok t := by
    intro ks
    induction ks with
    | nil => exact fun _ => ⟨[], rfl⟩
    | cons k ks ih =>
        intro hks
        obtain ⟨x, hx, rfl⟩ := List.mem_map.1 (hks k List.mem_cons_self)
        obtain ⟨v, hv⟩ := h x hx
        obtain ⟨t, ht⟩ := ih fun k hk => hks k (List.mem_cons_of_mem _ hk)
        rw [List.mapM_cons]
        have hentry : (do return (key x, ← make (key x) (xs.filter (key · = key x)))) =
            (Except.ok (key x, v) : Except ε (κ × α)) := bind_eq_ok_iff.2 ⟨v, hv, rfl⟩
        exact ⟨(key x, v) :: t, bind_eq_ok_iff.2 ⟨_, hentry, bind_eq_ok_iff.2 ⟨t, ht, rfl⟩⟩⟩
  exact hmap _ fun k hk => List.mem_eraseDups.1 hk

end GroupM

namespace Groups

variable {key : β → κ} {For : α → List β → Prop} {t u : Table κ α} {xs : List β}

/-- Tables of the same groups agree in what the groups determine. -/
theorem unique {γ : Type} {g : κ → α → γ} (ht : Groups key For t xs) (hu : Groups key For u xs)
    (hg : ∀ k v w, t.find? k = some v → u.find? k = some w → g k v = g k w) :
    t.mapValues g = u.mapValues g := by
  have hkeys : t.keys = u.keys := ht.keys.trans hu.keys.symm
  refine ext (by rw [keys_mapValues, keys_mapValues, hkeys]) ?_ fun k => ?_
  · rw [keys_mapValues]
    exact ht.nodup_keys
  · rw [find?_mapValues, find?_mapValues]
    cases hv : t.find? k with
    | none =>
        rw [find?_eq_none_iff, hkeys, ← find?_eq_none_iff] at hv
        rw [hv]
    | some v =>
        obtain ⟨w, hw⟩ := (mem_keys_iff u k).1 (hkeys ▸ (mem_keys_iff t k).2 ⟨v, hv⟩)
        rw [hw, Option.map_some, Option.map_some, hg k v w hv hw]

end Groups
end Table
end ApiTree
