import ApiTree.Table
import Mathlib.Data.List.Nodup

/-!
# ApiTree.Proofs.Table.Merge

What the operations on tables do, told by the order of the keys and by the
value under each key.  A table without repeated keys is known by these two
(`Table.ext`), so merging tables is associative wherever merging values is
(`Table.putAll_assoc`).

* `Table.keys_mergeM` — a merge keeps the keys on the left in their places and
  puts the new ones of the right side after them;
* `Table.find?_mergeM` — under each key it holds the value of the one side that
  has it, or what the two values combine to;
* `Table.exists_mergeM` — it fails only where two values do not combine.
-/

namespace ApiTree

/-- Two steps end well exactly if each of them does. -/
theorem bind_eq_ok_iff {α β ε : Type} {x : Except ε α} {f : α → Except ε β} {b : β} :
    x >>= f = .ok b ↔ ∃ a, x = .ok a ∧ f a = .ok b := by
  cases x <;> simp [bind, Except.bind]

theorem toOption_eq_some_iff {α ε : Type} {x : Except ε α} {a : α} :
    x.toOption = some a ↔ x = .ok a := by
  cases x <;> simp [Except.toOption]

theorem isSome_toOption_iff {α ε : Type} {x : Except ε α} :
    x.toOption.isSome = true ↔ ∃ a, x = .ok a := by
  cases x <;> simp [Except.toOption]

theorem pure_eq_ok_iff {α ε : Type} {a b : α} : (pure a : Except ε α) = .ok b ↔ a = b := by
  simp [pure, Except.pure]

namespace Table

variable {κ α ε : Type}

/-- The value under every key changed by a function of key and value. -/
def mapValues {β : Type} (f : κ → α → β) (t : Table κ α) : Table κ β :=
  t.map fun e => (e.1, f e.1 e.2)

@[simp] theorem keys_nil : keys ([] : Table κ α) = [] := rfl

@[simp] theorem keys_cons (e : κ × α) (t : Table κ α) : keys (e :: t) = e.1 :: keys t := rfl

@[simp] theorem keys_mapValues {β : Type} (f : κ → α → β) (t : Table κ α) :
    (t.mapValues f).keys = t.keys := by
  simp [mapValues, keys, Function.comp_def]

/-- A change that changes no value changes nothing. -/
theorem mapValues_eq_self {f : κ → α → α} (h : ∀ k v, f k v = v) (t : Table κ α) :
    t.mapValues f = t := by
  simp [mapValues, h]

variable [BEq κ]

/-- Puts all entries of the second table into the first, one after the other. -/
def putAll (t u : Table κ α) : Table κ α := u.foldl (fun t e => t.put e.1 e.2) t

theorem find?_append (t u : Table κ α) (k : κ) :
    find? (t ++ u) k = (t.find? k).or (u.find? k) := List.lookup_append

theorem ofList_eq_putAll (es : List (κ × α)) : ofList es = putAll [] es := rfl

@[simp] theorem putAll_nil (t : Table κ α) : t.putAll [] = t := rfl

@[simp] theorem putAll_cons (t : Table κ α) (e : κ × α) (u : Table κ α) :
    t.putAll (e :: u) = (t.put e.1 e.2).putAll u := rfl

/-- An entry with a new key is put into the table. -/
theorem mergeM_cons_of_none {f : κ → α → α → Except ε α} {t : Table κ α} {k : κ}
    (h : t.find? k = none) (v : α) (u : Table κ α) :
    mergeM f t ((k, v) :: u) = mergeM f (t.put k v) u := by
  simp only [mergeM, List.foldlM_cons, h]
  rfl

/-- An entry with a known key is combined with what stands there. -/
theorem mergeM_cons_of_some {f : κ → α → α → Except ε α} {t : Table κ α} {k : κ} {w : α}
    (h : t.find? k = some w) (v : α) (u : Table κ α) :
    mergeM f t ((k, v) :: u) = (f k w v).bind fun x => mergeM f (t.put k x) u := by
  simp only [mergeM, List.foldlM_cons, h]
  cases f k w v <;> rfl

variable [LawfulBEq κ]

/-! ## keys and values -/

/-- A key is there exactly if something stands under it. -/
theorem has_iff_find? (t : Table κ α) (k : κ) : t.has k = true ↔ ∃ v, t.find? k = some v := by
  induction t with
  | nil => simp [has, find?]
  | cons e t ih =>
      by_cases h : k = e.1
      · simp [has, find?_cons, h]
      · have h' : ¬ e.1 = k := fun x => h x.symm
        simpa [has, find?_cons, h, h'] using ih

/-- A key is there exactly if it is among the keys. -/
theorem has_iff_mem_keys (t : Table κ α) (k : κ) : t.has k = true ↔ k ∈ t.keys := by
  simp only [has, keys, List.any_eq_true, beq_iff_eq, List.mem_map]

/-- The keys are those under which something stands. -/
theorem mem_keys_iff (t : Table κ α) (k : κ) : k ∈ t.keys ↔ ∃ v, t.find? k = some v := by
  rw [← has_iff_mem_keys, has_iff_find?]

/-- Nothing stands under what is no key. -/
theorem find?_eq_none_iff (t : Table κ α) (k : κ) : t.find? k = none ↔ k ∉ t.keys := by
  rw [mem_keys_iff]
  cases t.find? k <;> simp

/-- What stands under a key is an entry. -/
theorem mem_of_find? {t : Table κ α} {k : κ} {v : α} (h : t.find? k = some v) : (k, v) ∈ t := by
  induction t with
  | nil => simp [find?] at h
  | cons e t ih =>
      rw [find?_cons] at h
      split at h
      · next hk =>
          obtain rfl := Option.some.inj h
          exact List.mem_cons.2 (.inl (Prod.ext (eq_of_beq hk) rfl))
      · exact List.mem_cons_of_mem _ (ih h)

/-- Without repeated keys every entry stands under its key. -/
theorem find?_of_mem {t : Table κ α} (hn : t.keys.Nodup) {k : κ} {v : α} (h : (k, v) ∈ t) :
    t.find? k = some v := by
  induction t with
  | nil => simp at h
  | cons e t ih =>
      obtain ⟨hhead, htail⟩ := List.nodup_cons.1 hn
      rcases List.mem_cons.1 h with rfl | hmem
      · simp [find?_cons]
      · have hk : k ≠ e.1 := by
          rintro rfl
          exact hhead (List.mem_map.2 ⟨_, hmem, rfl⟩)
        simpa [find?_cons, hk] using ih htail hmem

/-- A table without repeated keys is known by its keys and the values under them. -/
theorem ext {t u : Table κ α} (hk : t.keys = u.keys) (hn : t.keys.Nodup)
    (h : ∀ k, t.find? k = u.find? k) : t = u := by
  induction t generalizing u with
  | nil =>
      cases u with
      | nil => rfl
      | cons => simp at hk
  | cons e t ih =>
      cases u with
      | nil => simp at hk
      | cons e' u =>
          obtain ⟨hhead, htail⟩ := List.nodup_cons.1 (keys_cons e t ▸ hn)
          rw [keys_cons, keys_cons, List.cons.injEq] at hk
          obtain ⟨hkey, hrest⟩ := hk
          have hval : e.2 = e'.2 := by simpa [find?_cons, hkey] using h e.1
          have htails : t = u := by
            refine ih hrest htail fun k => ?_
            by_cases hke : k = e.1
            · have ht : k ∉ keys t := by rwa [hke]
              rw [(find?_eq_none_iff t k).2 ht, (find?_eq_none_iff u k).2 (hrest ▸ ht)]
            · have hke' : ¬ k = e'.1 := hkey ▸ hke
              simpa [find?_cons, hke, hke'] using h k
          rw [htails, Prod.ext hkey hval]

/-- Under a key stands the changed value. -/
theorem find?_mapValues {β : Type} (f : κ → α → β) (t : Table κ α) (k : κ) :
    (t.mapValues f).find? k = (t.find? k).map (f k) := by
  induction t with
  | nil => rfl
  | cons e t ih =>
      by_cases h : k = e.1
      · simp [mapValues, find?_cons, h]
      · simpa [mapValues, find?_cons, h] using ih

/-- In a table made of items, what stands under a key is that of the first item with the key. -/
theorem find?_map {β : Type} (xs : List β) (key : β → κ) (f : β → α) (k : κ) :
    find? (xs.map fun x => (key x, f x)) k = (xs.find? (key · == k)).map f := by
  induction xs with
  | nil => rfl
  | cons x xs ih =>
      by_cases h : k = key x
      · simp [find?_cons, h]
      · simpa [find?_cons, List.find?_cons, h, Ne.symm h] using ih

/-- A table that is made from its keys has under a key what was made for it. -/
theorem find?_map_key {ks : List κ} {k : κ} (h : k ∈ ks) (f : κ → α) :
    find? (ks.map fun k => (k, f k)) k = some (f k) := by
  induction ks with
  | nil => simp at h
  | cons l ks ih =>
      by_cases hkl : k = l
      · simp [find?_cons, hkl]
      · simpa [find?_cons, hkl] using ih ((List.mem_cons.1 h).resolve_left hkl)

/-- Nothing is taken away under what is no key. -/
theorem erase_of_not_mem {t : Table κ α} {k : κ} (h : k ∉ t.keys) : t.erase k = t := by
  refine List.filter_eq_self.2 fun e he => ?_
  have hne : e.1 ≠ k := fun heq => h (heq ▸ List.mem_map_of_mem he)
  simpa using hne

/-- Taking away a key leaves what stands under another one. -/
theorem find?_erase_of_ne (t : Table κ α) {k l : κ} (h : k ≠ l) :
    (t.erase l).find? k = t.find? k := by
  induction t with
  | nil => rfl
  | cons e t ih =>
      rw [erase, List.filter_cons]
      split
      · rw [find?_cons, find?_cons]
        exact ite_congr rfl (fun _ => rfl) fun _ => ih
      · next he =>
          have hel : e.1 = l := by simpa using he
          rw [find?_cons, if_neg (by simpa [hel] using h)]
          exact ih

/-! ## putting one entry -/

/-- An entry that is put stands under its key, and nothing else changes. -/
theorem find?_put (t : Table κ α) (k l : κ) (v : α) :
    (t.put k v).find? l = if l == k then some v else t.find? l := by
  split
  · next h => rw [eq_of_beq h, find?_put_self]
  · next h => exact find?_put_of_ne t v (by simpa using h)

/-- An entry that is put where there is none gives way to one that is there. -/
theorem find?_putNew (t : Table κ α) (k l : κ) (v : α) :
    (t.putNew k v).find? l = (t.find? l).or (if l == k then some v else none) := by
  rw [putNew]
  split
  · next h =>
      obtain ⟨w, hw⟩ := (has_iff_find? t k).1 h
      by_cases hl : l = k
      · simp [hl, hw]
      · simp [hl]
  · rw [find?_append, find?_cons, find?_nil]

/-- Under a known key the keys stay as they are. -/
theorem keys_put_of_mem {t : Table κ α} {k : κ} (h : k ∈ t.keys) (v : α) :
    (t.put k v).keys = t.keys := by
  induction t with
  | nil => simp at h
  | cons e t ih =>
      by_cases hk : e.1 = k
      · simp [put_cons, hk]
      · have hmem : k ∈ keys t := by
          rcases List.mem_cons.1 h with h | h
          · exact absurd h.symm hk
          · exact h
        simpa [put_cons, hk] using ih hmem

/-- A value under a new key goes to the end. -/
theorem put_of_not_mem {t : Table κ α} {k : κ} (h : k ∉ t.keys) (v : α) :
    t.put k v = t ++ [(k, v)] := by
  induction t with
  | nil => rfl
  | cons e t ih =>
      have hk : ¬ e.1 = k := fun x => h (List.mem_cons.2 (.inl x.symm))
      have hmem : k ∉ keys t := fun x => h (List.mem_cons_of_mem _ x)
      simpa [put_cons, hk] using ih hmem

/-- The value that a key has already changes nothing. -/
theorem put_of_find? {t : Table κ α} {k : κ} {v : α} (h : t.find? k = some v) :
    t.put k v = t := by
  induction t with
  | nil => simp at h
  | cons e t ih =>
      obtain ⟨l, w⟩ := e
      rw [find?_cons] at h
      by_cases hk : l = k
      · obtain rfl : w = v := by simpa [hk] using h
        simp [put_cons, hk]
      · have hrest : find? t k = some v := by simpa [Ne.symm hk] using h
        simp [put_cons, hk, ih hrest]

/-- A new key comes last. -/
theorem keys_put_of_not_mem {t : Table κ α} {k : κ} (h : k ∉ t.keys) (v : α) :
    (t.put k v).keys = t.keys ++ [k] := by
  rw [put_of_not_mem h, keys, List.map_append]
  rfl

/-- The keys after an entry is put are those before, and its own. -/
theorem mem_keys_put (t : Table κ α) (k : κ) (v : α) (l : κ) :
    l ∈ (t.put k v).keys ↔ l ∈ t.keys ∨ l = k := by
  by_cases h : k ∈ t.keys
  · rw [keys_put_of_mem h]
    exact ⟨.inl, fun hl => hl.elim id fun hl => hl ▸ h⟩
  · rw [keys_put_of_not_mem h, List.mem_append, List.mem_singleton]

/-- Putting an entry leaves which other keys are there. -/
theorem has_put_of_ne (t : Table κ α) {k l : κ} (v : α) (h : l ≠ k) :
    (t.put k v).has l = t.has l := by
  rw [Bool.eq_iff_iff, has_iff_mem_keys, has_iff_mem_keys, mem_keys_put]
  exact or_iff_left h

/-- After an entry is put the entries are old ones, or it. -/
theorem mem_of_mem_put {t : Table κ α} {k : κ} {v : α} {e : κ × α} (h : e ∈ t.put k v) :
    e ∈ t ∨ e = (k, v) := by
  induction t with
  | nil => exact .inr (List.mem_singleton.1 h)
  | cons x t ih =>
      rw [put_cons] at h
      split at h
      · next hk =>
          rcases List.mem_cons.1 h with rfl | h
          · exact .inr (Prod.ext (eq_of_beq hk) rfl)
          · exact .inl (List.mem_cons_of_mem _ h)
      · rcases List.mem_cons.1 h with rfl | h
        · exact .inl List.mem_cons_self
        · rcases ih h with h | h
          · exact .inl (List.mem_cons_of_mem _ h)
          · exact .inr h

theorem nodup_keys_put {t : Table κ α} (hn : t.keys.Nodup) (k : κ) (v : α) :
    (t.put k v).keys.Nodup := by
  by_cases h : k ∈ t.keys
  · rwa [keys_put_of_mem h]
  · rw [keys_put_of_not_mem h]
    exact hn.append (List.nodup_singleton k) (by simpa using h)

/-- Changing values and putting an entry may be done in either order. -/
theorem mapValues_put {β : Type} (f : κ → α → β) (t : Table κ α) (k : κ) (v : α) :
    (t.put k v).mapValues f = (t.mapValues f).put k (f k v) := by
  induction t with
  | nil => rfl
  | cons e t ih =>
      by_cases hk : e.1 = k
      · simp [put_cons, mapValues, hk]
      · simpa [put_cons, mapValues, hk] using ih

/-! ## merging -/

/-- What stands under a key after a merge, from what stood there on both sides. -/
inductive Merged (combine : α → α → Except ε α) : Option α → Option α → Option α → Prop
  | left (a : Option α) : Merged combine a none a
  | right (b : Option α) : Merged combine none b b
  | both {a b x : α} (h : combine a b = .ok x) : Merged combine (some a) (some b) (some x)

section Merge

variable {f : κ → α → α → Except ε α} {t u r : Table κ α}

/-- A merge repeats no key. -/
theorem nodup_keys_mergeM (hn : t.keys.Nodup) (h : mergeM f t u = .ok r) : r.keys.Nodup := by
  induction u generalizing t with
  | nil =>
      obtain rfl := Except.ok.inj h
      exact hn
  | cons e u ih =>
      obtain ⟨k, v⟩ := e
      cases hk : t.find? k with
      | none =>
          rw [mergeM_cons_of_none hk] at h
          exact ih (nodup_keys_put hn k v) h
      | some w =>
          rw [mergeM_cons_of_some hk] at h
          cases hx : f k w v with
          | error c => simp [hx, Except.bind] at h
          | ok x =>
              rw [hx] at h
              exact ih (nodup_keys_put hn k x) h

/-- A merge keeps the keys on the left, and the new ones on the right come after them. -/
theorem keys_mergeM [DecidableEq κ] (hu : u.keys.Nodup) (h : mergeM f t u = .ok r) :
    r.keys = t.keys ++ u.keys.filter (· ∉ t.keys) := by
  induction u generalizing t with
  | nil =>
      obtain rfl := Except.ok.inj h
      simp
  | cons e u ih =>
      obtain ⟨k, v⟩ := e
      rw [keys_cons, List.nodup_cons] at hu
      cases hk : t.find? k with
      | none =>
          have hmem : k ∉ t.keys := (find?_eq_none_iff t k).1 hk
          rw [mergeM_cons_of_none hk] at h
          have hfilter : (keys u).filter (· ∉ t.keys ++ [k]) = (keys u).filter (· ∉ t.keys) := by
            refine List.filter_congr fun l hl => ?_
            have hlk : l ≠ k := fun x => hu.1 (x ▸ hl)
            simp [hlk]
          rw [ih hu.2 h, keys_put_of_not_mem hmem, hfilter]
          simp [hmem]
      | some w =>
          have hmem : k ∈ t.keys := (mem_keys_iff t k).2 ⟨w, hk⟩
          rw [mergeM_cons_of_some hk] at h
          cases hx : f k w v with
          | error c => simp [hx, Except.bind] at h
          | ok x =>
              rw [hx] at h
              rw [ih hu.2 h, keys_put_of_mem hmem]
              simp [hmem]

/-- Under each key a merge has the value of one side, or what both combine to. -/
theorem find?_mergeM (hu : u.keys.Nodup) (h : mergeM f t u = .ok r) (l : κ) :
    Merged (f l) (t.find? l) (u.find? l) (r.find? l) := by
  induction u generalizing t with
  | nil =>
      obtain rfl := Except.ok.inj h
      exact .left _
  | cons e u ih =>
      obtain ⟨k, v⟩ := e
      rw [keys_cons, List.nodup_cons] at hu
      -- `x` is what the entry of `k` leaves in the table
      have hput : ∀ x, mergeM f (t.put k x) u = .ok r → Merged (f k) (t.find? k) (some v) (some x) →
          Merged (f l) (t.find? l) (find? ((k, v) :: u) l) (r.find? l) := by
        intro x hr hm
        have hl := ih hu.2 hr
        rw [find?_put] at hl
        rw [find?_cons]
        by_cases hlk : l = k
        · subst hlk
          have hnone : find? u l = none := (find?_eq_none_iff u l).2 hu.1
          rw [hnone] at hl
          simp only [beq_self_eq_true, if_true] at hl ⊢
          generalize r.find? l = y at hl ⊢
          cases hl
          exact hm
        · simpa [hlk] using hl
      cases hk : t.find? k with
      | none =>
          rw [mergeM_cons_of_none hk] at h
          exact hput v h (hk ▸ .right _)
      | some w =>
          rw [mergeM_cons_of_some hk] at h
          cases hx : f k w v with
          | error c => simp [hx, Except.bind] at h
          | ok x =>
              rw [hx] at h
              exact hput x h (hk ▸ .both hx)

/-- A merge succeeds when the values under shared keys combine. -/
theorem exists_mergeM (hu : u.keys.Nodup)
    (h : ∀ k w v, t.find? k = some w → u.find? k = some v → ∃ x, f k w v = .ok x) :
    ∃ r, mergeM f t u = .ok r := by
  induction u generalizing t with
  | nil => exact ⟨t, rfl⟩
  | cons e u ih =>
      obtain ⟨k, v⟩ := e
      rw [keys_cons, List.nodup_cons] at hu
      have hrest : ∀ x l w v', (t.put k x).find? l = some w → find? u l = some v' →
          ∃ y, f l w v' = .ok y := by
        intro x l w v' hw hv'
        have hlk : l ≠ k := by
          rintro rfl
          exact hu.1 ((mem_keys_iff u l).2 ⟨v', hv'⟩)
        rw [find?_put_of_ne t x hlk] at hw
        exact h l w v' hw (by simpa [find?_cons, hlk] using hv')
      cases hk : t.find? k with
      | none =>
          rw [mergeM_cons_of_none hk]
          exact ih hu.2 (hrest v)
      | some w =>
          obtain ⟨x, hx⟩ := h k w v hk (by simp [find?_cons])
          rw [mergeM_cons_of_some hk, hx]
          exact ih hu.2 (hrest x)

omit [LawfulBEq κ] in
/-- A merge that keeps the value on the right where both sides have one. -/
theorem mergeM_eq_putAll (hf : ∀ k w v x, f k w v = .ok x → x = v) (h : mergeM f t u = .ok r) :
    r = t.putAll u := by
  induction u generalizing t with
  | nil => exact (Except.ok.inj h).symm
  | cons e u ih =>
      obtain ⟨k, v⟩ := e
      cases hk : t.find? k with
      | none =>
          rw [mergeM_cons_of_none hk] at h
          exact ih h
      | some w =>
          rw [mergeM_cons_of_some hk] at h
          cases hx : f k w v with
          | error c => simp [hx, Except.bind] at h
          | ok x =>
              rw [hx] at h
              obtain rfl := hf k w v x hx
              exact ih h

end Merge

/-! ## putting all entries -/

omit [LawfulBEq κ] in
/-- Where the right value counts, a merge puts all entries of the right side. -/
theorem mergeM_right (t u : Table κ α) :
    mergeM (fun _ _ v => Except.ok v) t u = (.ok (t.putAll u) : Except Unit (Table κ α)) := by
  induction u generalizing t with
  | nil => rfl
  | cons e u ih =>
      obtain ⟨k, v⟩ := e
      cases hk : t.find? k with
      | none => rw [mergeM_cons_of_none hk, ih, putAll_cons]
      | some w =>
          rw [mergeM_cons_of_some hk]
          exact ih _

/-- Of several entries with one key the last one counts. -/
theorem find?_putAll_eq (t : Table κ α) (es : List (κ × α)) (k : κ) :
    (t.putAll es).find? k = (find? es.reverse k).or (t.find? k) := by
  induction es generalizing t with
  | nil => simp
  | cons e es ih =>
      rw [putAll_cons, ih, find?_put, List.reverse_cons, find?_append, find?_cons, find?_nil,
        Option.or_assoc]
      congr 1
      split <;> simp

/-- What stands in a table was put there or stood there before. -/
theorem mem_of_mem_putAll {t es : Table κ α} {e : κ × α} (h : e ∈ t.putAll es) :
    e ∈ t ∨ e ∈ es := by
  induction es generalizing t with
  | nil => exact .inl h
  | cons x es ih =>
      rcases ih h with h | h
      · rcases mem_of_mem_put h with h | rfl
        · exact .inl h
        · exact .inr List.mem_cons_self
      · exact .inr (List.mem_cons_of_mem _ h)

/-- What comes with the entries of both comes with those of either. -/
theorem mem_flatMap_putAll {β : Type} {f : α → List β} {t u : Table κ α} {x : β}
    (h : x ∈ (t.putAll u).flatMap fun e => f e.2) :
    (x ∈ t.flatMap fun e => f e.2) ∨ x ∈ u.flatMap fun e => f e.2 := by
  obtain ⟨e, he, hx⟩ := List.mem_flatMap.1 h
  rcases mem_of_mem_putAll he with he | he
  · exact .inl (List.mem_flatMap.2 ⟨e, he, hx⟩)
  · exact .inr (List.mem_flatMap.2 ⟨e, he, hx⟩)

/-- The entries of a table that is made from a list are in the list. -/
theorem mem_of_mem_ofList {es : List (κ × α)} {e : κ × α} (h : e ∈ ofList es) : e ∈ es := by
  rcases mem_of_mem_putAll (t := []) h with h | h
  · simp at h
  · exact h

/-- The keys of both are those of either. -/
theorem mem_keys_putAll (t es : Table κ α) (k : κ) :
    k ∈ (t.putAll es).keys ↔ k ∈ t.keys ∨ k ∈ es.keys := by
  induction es generalizing t with
  | nil => simp
  | cons e es ih => rw [putAll_cons, ih, mem_keys_put, keys_cons, List.mem_cons, or_assoc]

theorem mem_keys_ofList (es : List (κ × α)) (k : κ) : k ∈ (ofList es).keys ↔ k ∈ keys es := by
  rw [ofList_eq_putAll, mem_keys_putAll]
  simp

/-- Putting many entries repeats no key. -/
theorem nodup_keys_putAll {t : Table κ α} (hn : t.keys.Nodup) (u : Table κ α) :
    (t.putAll u).keys.Nodup := nodup_keys_mergeM hn (mergeM_right t u)

theorem nodup_keys_ofList (es : List (κ × α)) : (ofList es).keys.Nodup := by
  have hnil : (keys ([] : Table κ α)).Nodup := List.nodup_nil
  exact nodup_keys_putAll hnil es

/-- The keys on the left stay in their places, and the new ones come after them. -/
theorem keys_putAll [DecidableEq κ] (t : Table κ α) {u : Table κ α} (hu : u.keys.Nodup) :
    (t.putAll u).keys = t.keys ++ u.keys.filter (· ∉ t.keys) := keys_mergeM hu (mergeM_right t u)

/-- Under each key the right side counts before the left one. -/
theorem find?_putAll (t : Table κ α) {u : Table κ α} (hu : u.keys.Nodup) (k : κ) :
    (t.putAll u).find? k = (u.find? k).or (t.find? k) := by
  have h := find?_mergeM hu (mergeM_right t u) k
  generalize t.find? k = a, u.find? k = b, (t.putAll u).find? k = x at h ⊢
  cases h with
  | left => rfl
  | right => simp
  | both h => simpa using (Except.ok.inj h).symm

/-- Putting a table of its own into nothing gives it back. -/
theorem ofList_of_nodup {es : List (κ × α)} (hn : (keys es).Nodup) : ofList es = es := by
  classical
  refine ext ?_ (nodup_keys_ofList es) fun k => ?_
  · rw [ofList_eq_putAll, keys_putAll [] hn]
    simp [keys]
  · rw [ofList_eq_putAll, find?_putAll [] hn]
    simp

/-- Tables without repeated keys can be put together in either order of steps. -/
theorem putAll_assoc {t u v : Table κ α} (ht : t.keys.Nodup) (hu : u.keys.Nodup)
    (hv : v.keys.Nodup) : (t.putAll u).putAll v = t.putAll (u.putAll v) := by
  classical
  have huv := nodup_keys_putAll hu v
  refine ext ?_ (nodup_keys_putAll (nodup_keys_putAll ht u) v) fun k => ?_
  · rw [keys_putAll _ hv, keys_putAll _ huv, keys_putAll _ hu, keys_putAll _ hv,
      List.filter_append, List.append_assoc, List.filter_filter]
    congr 2
    refine List.filter_congr fun k _ => ?_
    by_cases hkt : k ∈ t.keys <;> by_cases hku : k ∈ u.keys <;> simp [hkt, hku]
  · rw [find?_putAll _ hv, find?_putAll _ huv, find?_putAll _ hu, find?_putAll _ hv,
      Option.or_assoc]

/-- Changing values and putting many entries may be done in either order. -/
theorem mapValues_putAll {β : Type} (f : κ → α → β) (t u : Table κ α) :
    (t.putAll u).mapValues f = (t.mapValues f).putAll (u.mapValues f) := by
  induction u generalizing t with
  | nil => rfl
  | cons e u ih => rw [putAll_cons, ih, mapValues_put]; rfl

/-! ## sorting -/

/-- An entry is inserted somewhere among the others. -/
theorem perm_insertByName (e : String × α) (t : Table String α) :
    (insertByName e t).Perm (e :: t) := by
  induction t with
  | nil => rfl
  | cons x t ih =>
      rw [insertByName]
      split
      · rfl
      · exact (ih.cons x).trans (.swap e x t)

/-- Sorting moves entries only. -/
theorem perm_sorted (t : Table String α) : t.sorted.Perm t := by
  induction t with
  | nil => rfl
  | cons e t ih => exact (perm_insertByName e _).trans (ih.cons e)

theorem mem_sorted {t : Table String α} {e : String × α} : e ∈ t.sorted ↔ e ∈ t :=
  (perm_sorted t).mem_iff

theorem mem_keys_sorted {t : Table String α} {k : String} : k ∈ t.sorted.keys ↔ k ∈ t.keys :=
  ((perm_sorted t).map Prod.fst).mem_iff

/-- Sorting repeats no key. -/
theorem nodup_keys_sorted {t : Table String α} (h : t.keys.Nodup) : t.sorted.keys.Nodup :=
  ((perm_sorted t).map Prod.fst).nodup_iff.2 h

/-- Sorting leaves what stands under a key. -/
theorem find?_sorted {t : Table String α} (h : t.keys.Nodup) (k : String) :
    t.sorted.find? k = t.find? k := by
  cases hfind : t.find? k with
  | none =>
      rw [find?_eq_none_iff] at hfind ⊢
      rwa [mem_keys_sorted]
  | some v => exact find?_of_mem (nodup_keys_sorted h) (mem_sorted.2 (mem_of_find? hfind))

end Table
end ApiTree
