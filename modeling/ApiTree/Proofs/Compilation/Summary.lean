import ApiTree.Compilation.Document
import ApiTree.Proofs.Compilation.Leaf
import ApiTree.Proofs.Table.Groups

/-!
# ApiTree.Proofs.Compilation.Summary

What a partial document knows of the leaves that went into it
(`Partial.Summarizes`): the paths in the order in which they first occur, each
spelled as by its first leaf, and for every method what the leaves of that
method make together.  Which merges led to it does not matter.

* `Partial.Summarizes.merge`, `Partial.Summarizes.exists_merge` — merging the
  summaries of two lists succeeds exactly when the lists are coherent together, and
  then summarizes one list after the other;
* `Tree.fold_summarizes`, `Tree.fold_of_leaves` — so folding a tree succeeds
  exactly when its leaves are coherent, and then summarizes them.
-/

namespace ApiTree
open Compiling

/-- Leaves that agree wherever they share a path and a method. -/
def Coherent (ls : List Leaf) : Prop :=
  ls.Pairwise fun l l' => l.key = l'.key → l.method = l'.method → l.operation.Agrees l'.operation

/-- Two lists of leaves go together if each does, and so do any two of either. -/
theorem coherent_append_iff (ls rs : List Leaf) :
    Coherent (ls ++ rs) ↔ Coherent ls ∧ Coherent rs ∧ ∀ l ∈ ls, ∀ r ∈ rs,
      l.key = r.key → l.method = r.method → l.operation.Agrees r.operation :=
  List.pairwise_append

/-- Some of the leaves that go together go together. -/
theorem Coherent.filter {ls : List Leaf} (h : Coherent ls) (p : Leaf → Bool) :
    Coherent (ls.filter p) := List.Pairwise.sublist List.filter_sublist h

/-! ## one operation -/

/-- What leaves make together when their captures have the given names; the text
of a path that is not found is left out. -/
def together (names : List String) (ls : List Leaf) : Operation :=
  ((Operation.unitedAll (ls.map (·.operation))).respelled names).muted

/-- Well-formed leaves of one operation, with `n` captures each, that agree. -/
structure Declares (n : Nat) (ls : List Leaf) : Prop where
  ne_nil : ls ≠ []
  wellFormed : ∀ l ∈ ls, l.WellFormed
  arity : ∀ l ∈ ls, l.captures.length = n
  agree : ls.Pairwise fun l l' => l.operation.Agrees l'.operation

section Declares

variable {names : List String} {xs ys : List Leaf} {a b : Operation}

/-- Leaves of one operation have one number of captures. -/
theorem Declares.arity_operation {n : Nat} (h : Declares n xs) :
    ∀ op ∈ xs.map (·.operation), op.arity = n := by
  intro op hop
  obtain ⟨l, hl, rfl⟩ := List.mem_map.1 hop
  rw [Operation.arity, (h.wellFormed l hl).spelled.length_captured, h.arity l hl]

/-- The operations of leaves are proper. -/
theorem Declares.proper {n : Nat} (h : Declares n xs) :
    ∀ op ∈ xs.map (·.operation), op.Proper := by
  intro op hop
  obtain ⟨l, hl, rfl⟩ := List.mem_map.1 hop
  exact (h.wellFormed l hl).proper

/-- What leaves of one operation come to together is proper. -/
theorem proper_of_together (h : Declares names.length xs) (ha : a.muted = together names xs) :
    a.Proper := by
  rw [← Operation.proper_muted_iff, ha, together, Operation.proper_muted_iff,
    Operation.proper_respelled_iff]
  exact Operation.proper_unitedAll (by simpa using h.ne_nil) h.proper

/-- What leaves of one operation come to together has captures of the given names. -/
theorem spelledBy_of_together (hn : names.Nodup) (h : Declares names.length xs)
    (ha : a.muted = together names xs) : SpelledBy names a.parameters := by
  obtain ⟨l, ls, rfl⟩ := List.exists_cons_of_ne_nil h.ne_nil
  have hl := (h.wellFormed l (by simp)).spelled
  have hparameters : a.parameters = respelled names l.operation.parameters := by
    rw [← Operation.parameters_muted, ha]
    exact congrArg (respelled names) (Operation.parameters_unitedAll_cons _ _)
  rw [hparameters]
  exact spelledBy_respelled hl hn (h.arity l (by simp)).symm

/-- Groups of leaves can stand for each other exactly if any two of their leaves can. -/
theorem agrees_iff_of_together (hx : Declares names.length xs) (hy : Declares names.length ys)
    (ha : a.muted = together names xs) (hb : b.muted = together names ys) :
    a.Agrees b ↔ ∀ x ∈ xs, ∀ y ∈ ys, x.operation.Agrees y.operation := by
  have hpair : ∀ {zs : List Leaf}, Declares names.length zs →
      (zs.map (·.operation)).Pairwise Operation.Agrees := fun h => List.pairwise_map.2 h.agree
  have hall : ∀ {zs : List Leaf} {c : Operation}, Declares names.length zs →
      c.arity = names.length → ((Operation.unitedAll (zs.map (·.operation))).Agrees c ↔
        ∀ z ∈ zs, z.operation.Agrees c) := by
    intro zs c hz hc
    rw [Operation.unitedAll_agrees_iff (by simpa using hz.ne_nil) hz.proper
      (fun op hop => (hz.arity_operation op hop).trans hc.symm) (hpair hz)]
    simp
  have harity : (Operation.unitedAll (ys.map (·.operation))).arity = names.length :=
    Operation.arity_unitedAll (by simpa using hy.ne_nil) hy.arity_operation
  rw [← Operation.agrees_muted_iff, ha, hb, together, together, Operation.agrees_muted_iff,
    Operation.respelled_agrees_iff, Operation.agrees_respelled_iff, hall hx harity]
  refine forall₂_congr fun x hx' => ?_
  have hx'' := hx.arity_operation x.operation (List.mem_map.2 ⟨x, hx', rfl⟩)
  rw [Operation.agrees_comm, hall hy hx'']
  simp only [Operation.agrees_comm x.operation]

/-- Two groups of leaves come to together what all of them come to. -/
theorem muted_united_of_together (hx : Declares names.length xs) (hy : Declares names.length ys)
    (ha : a.muted = together names xs) (hb : b.muted = together names ys) :
    (a.united b).muted = together names (xs ++ ys) := by
  have hx' : xs.map (·.operation) ≠ [] := by simpa using hx.ne_nil
  have hy' : ys.map (·.operation) ≠ [] := by simpa using hy.ne_nil
  rw [Operation.muted_united, ha, hb, together, together, together, List.map_append,
    Operation.unitedAll_append hx' hy' hx.proper hy.proper, ← Operation.muted_united,
    Operation.united_respelled]
  rfl

/-- A new spelling takes the place of an old one. -/
theorem together_respelled (old : List String) (h : Declares names.length xs) :
    (together old xs).respelled names = together names xs := by
  have harity : (Operation.unitedAll (xs.map (·.operation))).arity = names.length :=
    Operation.arity_unitedAll (by simpa using h.ne_nil) h.arity_operation
  have hparameters := respelled_respelled old harity
  rw [together, together, ← Operation.muted_respelled, Operation.respelled, Operation.respelled,
    Operation.respelled]
  simp only [hparameters]

end Declares

/-! ## one path -/

/-- An entry is spelled as by the first of some leaves at its path, and holds for
each method what the leaves of that method make together. -/
structure PathEntry.Summarizes (e : PathEntry) (ls : List Leaf) : Prop where
  display : ls.head?.map (·.route.display) = some e.display
  captures : ls.head?.map (·.captures) = some e.captures
  operations : Table.Groups Leaf.method (fun op ls => op.muted = together e.captures ls)
    e.operations ls

/-- Entries of one path merge operation by operation, and the left one stays as it is beside. -/
theorem pathEntry_merge_ok {left right e : PathEntry} (h : left.merge right = .ok e) :
    ∃ operations, left.operations.mergeM (fun m => mergeOperations (left.title m))
      (left.spelledAs right) = .ok operations ∧ e = { left with operations } := by
  obtain ⟨operations, hm, h⟩ := bind_eq_ok_iff.1 h
  exact ⟨operations, hm, (pure_eq_ok_iff.1 h).symm⟩

/-- Well-formed leaves at one path that agree where they share a method. -/
structure AtOnePath (ls : List Leaf) : Prop where
  wellFormed : ∀ l ∈ ls, l.WellFormed
  key : ∀ l ∈ ls, ∀ l' ∈ ls, l.key = l'.key
  coherent : Coherent ls

/-- Leaves of one method at one path agree. -/
theorem AtOnePath.pairwise_agrees {ls : List Leaf} (h : AtOnePath ls) (m : Method) :
    (ls.filter (·.method = m)).Pairwise fun l l' => l.operation.Agrees l'.operation := by
  refine List.Pairwise.imp_of_mem ?_ (h.coherent.filter _)
  intro l l' hl hl' hagree
  exact hagree (h.key l (List.mem_of_mem_filter hl) l' (List.mem_of_mem_filter hl'))
    (eq_of_mem_group l hl l' hl')

namespace PathEntry.Summarizes

variable {e f g : PathEntry} {xs ys : List Leaf}

/-- The spelling of an entry is that of its first leaf. -/
theorem exists_head (h : e.Summarizes xs) :
    ∃ l ls, xs = l :: ls ∧ l.captures = e.captures ∧ l.route.display = e.display := by
  cases xs with
  | nil => simpa using h.captures
  | cons l ls => exact ⟨l, ls, rfl, by simpa using h.captures, by simpa using h.display⟩

theorem length_captures (h : e.Summarizes xs) (hxs : AtOnePath xs) :
    ∀ l ∈ xs, l.captures.length = e.captures.length := by
  obtain ⟨l, ls, rfl, hcaptures, -⟩ := h.exists_head
  intro l' hl'
  rw [← hcaptures]
  exact Leaf.length_captures (hxs.key l' hl' l (by simp))

/-- The captures of an entry differ. -/
theorem nodup_captures (h : e.Summarizes xs) (hxs : AtOnePath xs) : e.captures.Nodup := by
  obtain ⟨l, ls, rfl, hcaptures, -⟩ := h.exists_head
  rw [← hcaptures]
  exact (hxs.wellFormed l (by simp)).spelled.nodup_names

/-- The leaves of a method at a path are leaves of one operation. -/
theorem declares (h : e.Summarizes xs) (hxs : AtOnePath xs) {m : Method} {op : Operation}
    (hop : e.operations.find? m = some op) :
    Declares e.captures.length (xs.filter (·.method = m)) where
  ne_nil := h.operations.group_ne_nil hop
  wellFormed l hl := hxs.wellFormed l (List.mem_of_mem_filter hl)
  arity l hl := h.length_captures hxs l (List.mem_of_mem_filter hl)
  agree := hxs.pairwise_agrees m

/-- An entry that is spelled as another one summarizes the same leaves under the
other spelling. -/
theorem spelledAs (hf : f.Summarizes ys) (hys : AtOnePath ys)
    (hlen : e.captures.length = f.captures.length) :
    Table.Groups Leaf.method (fun op ls => op.muted = together e.captures ls)
      (e.spelledAs f) ys := by
  obtain ⟨spell, hspelled, hspell⟩ := PathEntry.exists_spelledAs hlen
  rw [hspelled]
  refine hf.operations.mapValues fun m op hop htogether => ?_
  have hdeclares := hf.declares hys hop
  rw [hspell op (spelledBy_of_together (hf.nodup_captures hys) hdeclares htogether),
    Operation.muted_respelled, htogether, together_respelled _ (hlen ▸ hdeclares)]

section Merge

variable (he : e.Summarizes xs) (hf : f.Summarizes ys) (hxs : AtOnePath xs) (hys : AtOnePath ys)
  (hkey : ∀ x ∈ xs, ∀ y ∈ ys, x.key = y.key)

include he hf hxs hys hkey

theorem length_captures_eq : e.captures.length = f.captures.length := by
  obtain ⟨l, ls, rfl, hl, -⟩ := he.exists_head
  obtain ⟨r, rs, rfl, hr, -⟩ := hf.exists_head
  rw [← hl, ← hr]
  exact Leaf.length_captures (hkey l (by simp) r (by simp))

/-- The leaves behind an operation that is spelled anew. -/
theorem declares_spelledAs {m : Method} {b : Operation}
    (hb : (e.spelledAs f).find? m = some b) :
    Declares e.captures.length (ys.filter (·.method = m)) ∧
      b.muted = together e.captures (ys.filter (·.method = m)) := by
  have hlen := length_captures_eq he hf hxs hys hkey
  have hspelled := spelledAs hf hys hlen
  obtain ⟨op, hop⟩ : ∃ op, f.operations.find? m = some op := by
    rw [hf.operations.find?_isSome_iff, ← hspelled.find?_isSome_iff]
    exact ⟨b, hb⟩
  exact ⟨hlen ▸ hf.declares hys hop, hspelled.values m b hb⟩

/-- Operations of one method merge exactly when the leaves behind them agree. -/
theorem mergeOperations_ok_iff {m : Method} {a b x : Operation} {identity : String}
    (ha : e.operations.find? m = some a) (hb : (e.spelledAs f).find? m = some b) :
    mergeOperations identity a b = .ok x ↔
      (∀ l ∈ xs.filter (·.method = m), ∀ r ∈ ys.filter (·.method = m),
        l.operation.Agrees r.operation) ∧ x = a.united b := by
  have hxs' := he.declares hxs ha
  have ha' := he.operations.values m a ha
  obtain ⟨hys', hb'⟩ := declares_spelledAs he hf hxs hys hkey hb
  have hn := he.nodup_captures hxs
  rw [mergeOperations_eq_ok_iff (spelledBy_of_together hn hxs' ha')
    (spelledBy_of_together hn hys' hb') (proper_of_together hys' hb'),
    agrees_iff_of_together hxs' hys' ha' hb']

/-- Entries of one path that merge have leaves that go together, and stand for all of them. -/
theorem merge (h : e.merge f = .ok g) : Coherent (xs ++ ys) ∧ g.Summarizes (xs ++ ys) := by
  have hlen := length_captures_eq he hf hxs hys hkey
  have hspelled := spelledAs hf hys hlen
  obtain ⟨operations, hmerge, rfl⟩ := pathEntry_merge_ok h
  refine ⟨(coherent_append_iff xs ys).2 ⟨hxs.coherent, hys.coherent, fun l hl r hr _ hm => ?_⟩, ?_⟩
  · obtain ⟨a, b, x, ha, hb, hx⟩ := he.operations.exists_of_mergeM_ok hspelled hmerge hl hr hm
    obtain ⟨hagree, -⟩ := (mergeOperations_ok_iff he hf hxs hys hkey ha hb).1 hx
    exact hagree l (mem_group_iff.2 ⟨hl, rfl⟩) r (mem_group_iff.2 ⟨hr, hm.symm⟩)
  · obtain ⟨l, ls, rfl, hcaptures, hdisplay⟩ := he.exists_head
    refine ⟨by simp [hdisplay], by simp [hcaptures],
      he.operations.mergeM hspelled hmerge fun m a b x ha hb hx => ?_⟩
    obtain ⟨-, rfl⟩ := (mergeOperations_ok_iff he hf hxs hys hkey ha hb).1 hx
    obtain ⟨hys', hb'⟩ := declares_spelledAs he hf hxs hys hkey hb
    exact muted_united_of_together (he.declares hxs ha) hys' (he.operations.values m a ha) hb'

/-- Entries of one path merge if their leaves go together. -/
theorem exists_merge (h : Coherent (xs ++ ys)) : ∃ g, e.merge f = .ok g := by
  have hspelled := spelledAs hf hys (length_captures_eq he hf hxs hys hkey)
  obtain ⟨operations, hmerge⟩ := Table.exists_mergeM
    (f := fun m => mergeOperations (e.title m)) (t := e.operations) hspelled.nodup_keys
    fun m a b ha hb => by
      refine ⟨a.united b, (mergeOperations_ok_iff he hf hxs hys hkey ha hb).2 ⟨?_, rfl⟩⟩
      intro l hl r hr
      have hm := eq_of_mem_group l hl r hr
      obtain ⟨hl, -⟩ := mem_group_iff.1 hl
      obtain ⟨hr, -⟩ := mem_group_iff.1 hr
      exact ((coherent_append_iff xs ys).1 h).2.2 l hl r hr (hkey l hl r hr) hm
  exact ⟨{ e with operations }, bind_eq_ok_iff.2 ⟨operations, hmerge, rfl⟩⟩

end Merge

end PathEntry.Summarizes

/-! ## a partial document -/

/-- A partial document has one entry for each path of some leaves, in the order in
which the paths first occur. -/
def Partial.Summarizes (p : Partial) (ls : List Leaf) : Prop :=
  Table.Groups Leaf.key PathEntry.Summarizes p ls

namespace Partial.Summarizes

variable {p q r : Partial} {ls rs : List Leaf}

/-- The leaves under a key stand at one path. -/
theorem atOnePath (hwf : ∀ l ∈ ls, l.WellFormed) (hls : Coherent ls) (k : PathKey) :
    AtOnePath (ls.filter (·.key = k)) where
  wellFormed l hl := hwf l (List.mem_of_mem_filter hl)
  key := eq_of_mem_group
  coherent := hls.filter _

variable (hp : p.Summarizes ls) (hq : q.Summarizes rs) (hls : Coherent ls) (hrs : Coherent rs)
  (hwfl : ∀ l ∈ ls, l.WellFormed) (hwfr : ∀ r ∈ rs, r.WellFormed)

include hp hq hls hrs hwfl hwfr

/-- Parts that merge have leaves that go together, and stand for all of them. -/
theorem merge (h : p.merge q = .ok r) : Coherent (ls ++ rs) ∧ r.Summarizes (ls ++ rs) := by
  have hentry : ∀ k v w x, Table.find? p k = some v → Table.find? q k = some w →
      v.merge w = .ok x →
      Coherent (ls.filter (·.key = k) ++ rs.filter (·.key = k)) ∧
        x.Summarizes (ls.filter (·.key = k) ++ rs.filter (·.key = k)) :=
    fun k v w x hv hw hx => PathEntry.Summarizes.merge (hp.values k v hv) (hq.values k w hw)
      (atOnePath hwfl hls k) (atOnePath hwfr hrs k) eq_of_mem_group hx
  refine ⟨(coherent_append_iff ls rs).2 ⟨hls, hrs, fun l hl x hx hk hm => ?_⟩,
    Table.Groups.mergeM hp hq h fun k v w x hv hw hx => (hentry k v w x hv hw hx).2⟩
  obtain ⟨v, w, z, hv, hw, hz⟩ := Table.Groups.exists_of_mergeM_ok hp hq h hl hx hk
  obtain ⟨-, -, hagree⟩ := (coherent_append_iff _ _).1 (hentry _ v w z hv hw hz).1
  exact hagree l (mem_group_iff.2 ⟨hl, rfl⟩) x (mem_group_iff.2 ⟨hx, hk.symm⟩) hk hm

/-- Parts merge if their leaves go together. -/
theorem exists_merge (h : Coherent (ls ++ rs)) : ∃ r, p.merge q = .ok r := by
  refine Table.exists_mergeM (Table.Groups.nodup_keys hq) fun k v w hv hw => ?_
  refine PathEntry.Summarizes.exists_merge (hp.values k v hv) (hq.values k w hw)
    (atOnePath hwfl hls k) (atOnePath hwfr hrs k) eq_of_mem_group ?_
  rw [← List.filter_append]
  exact h.filter _

end Partial.Summarizes

/-! ## folding a tree -/

/-- A route that is compiled comes to its leaf. -/
theorem materialize_ok {c : Catalog} {r : Route} {p : Partial} {s s' : Collected}
    (h : (materialize c r).run s = .ok (p, s')) :
    ∃ l, (leaf c r).run s = .ok (l, s') ∧ p.Summarizes [l] := by
  obtain ⟨op, t, hop, h⟩ := run_bind_ok.1 h
  obtain ⟨rfl, rfl⟩ := run_pure_ok.1 h
  refine ⟨⟨r, op⟩, run_bind_ok.2 ⟨op, t, hop, run_pure_ok.2 ⟨rfl, rfl⟩⟩, ?_⟩
  have hl : (leaf c r).run s = .ok (⟨r, op⟩, t) :=
    run_bind_ok.2 ⟨op, t, hop, run_pure_ok.2 ⟨rfl, rfl⟩⟩
  obtain ⟨-, hwf⟩ := wellFormed_of_leaf hl
  have htogether : op.muted = together (captureNames r.qualifiers) [⟨r, op⟩] := by
    rw [together, Operation.muted_respelled]
    exact (congrArg Operation.muted (Operation.respelled_of_spelledBy hwf.spelled)).symm
  exact Table.Groups.singleton (x := (⟨r, op⟩ : Leaf))
    ⟨rfl, rfl, Table.Groups.singleton (x := (⟨r, op⟩ : Leaf)) htogether⟩

/-- A route with a leaf is compiled. -/
theorem exists_materialize {c : Catalog} {r : Route} {l : Leaf} {s s' : Collected}
    (h : (leaf c r).run s = .ok (l, s')) : ∃ p, (materialize c r).run s = .ok (p, s') := by
  obtain ⟨op, t, hop, h⟩ := run_bind_ok.1 h
  obtain ⟨rfl, rfl⟩ := run_pure_ok.1 h
  exact ⟨_, run_bind_ok.2 ⟨op, t, hop, run_pure_ok.2 ⟨rfl, rfl⟩⟩⟩

namespace Tree

variable {c : Catalog} {above : List Qualifier} {t l r : Tree} {s s' : Collected}

/-- A choice is folded side by side, and then merged. -/
theorem fold_alt_ok {p : Partial} {events : List Event}
    (h : ((alt l r).fold c above).run s = .ok ((p, events), s')) :
    ∃ left right before after s₁, (l.fold c above).run s = .ok ((left, before), s₁) ∧
      (r.fold c above).run s₁ = .ok ((right, after), s') ∧ left.merge right = .ok p := by
  obtain ⟨⟨left, before⟩, s₁, hl, h⟩ := run_bind_ok.1 h
  obtain ⟨⟨right, after⟩, s₂, hr, h⟩ := run_bind_ok.1 h
  cases hm : left.merge right with
  | error conflict => simp only [hm, run_throw, reduceCtorEq] at h
  | ok merged =>
      simp only [hm] at h
      obtain ⟨heq, rfl⟩ := run_pure_ok.1 h
      obtain ⟨rfl, -⟩ := Prod.mk.inj heq
      exact ⟨left, right, before, after, s₁, hl, hr, hm⟩

section Alternatives

variable {left right merged : Partial} {before after : List Event} {s₁ : Collected}

/-- Where the sides merge, the choice is folded. -/
theorem fold_alt_of_merged (hl : (l.fold c above).run s = .ok ((left, before), s₁))
    (hr : (r.fold c above).run s₁ = .ok ((right, after), s')) (hm : left.merge right = .ok merged) :
    ((alt l r).fold c above).run s =
      .ok ((merged, before ++ after ++ left.overrides right), s') := by
  rw [fold, run_bind_of_ok hl, run_bind_of_ok hr]
  simp only [hm]
  rfl

/-- Where the sides do not merge, the choice is a conflict. -/
theorem fold_alt_of_conflict {conflict : Conflict}
    (hl : (l.fold c above).run s = .ok ((left, before), s₁))
    (hr : (r.fold c above).run s₁ = .ok ((right, after), s'))
    (hm : left.merge right = .error conflict) :
    ((alt l r).fold c above).run s = .error (.conflict conflict) := by
  rw [fold, run_bind_of_ok hl, run_bind_of_ok hr]
  simp only [hm, run_throw]

end Alternatives

/-- A tree that folds compiles its routes one after the other, to coherent leaves,
and what it folds to summarizes them. -/
theorem fold_summarizes {p : Partial} {events : List Event}
    (h : (t.fold c above).run s = .ok ((p, events), s')) :
    ∃ rs ls, t.routes above = .ok rs ∧ (leaves c rs).run s = .ok (ls, s') ∧ Coherent ls ∧
      p.Summarizes ls := by
  induction t generalizing above s p events s' with
  | leaf e =>
      obtain ⟨p, _, hp, h⟩ := run_bind_ok.1 h
      obtain ⟨heq, rfl⟩ := run_pure_ok.1 h
      obtain ⟨rfl, -⟩ := Prod.mk.inj heq
      obtain ⟨l, hl, hsummary⟩ := materialize_ok hp
      exact ⟨[⟨above, e⟩], [l], rfl, leaves_singleton_ok.2 ⟨l, hl, rfl⟩,
        List.pairwise_singleton _ _, hsummary⟩
  | seq q t ih => exact ih h
  | alt l r ihl ihr =>
      obtain ⟨left, right, _, _, s₁, hl, hr, hm⟩ := fold_alt_ok h
      obtain ⟨ls, xs, hls, hxs, hcx, hsx⟩ := ihl hl
      obtain ⟨rs, ys, hrs, hys, hcy, hsy⟩ := ihr hr
      obtain ⟨hcoherent, hsummary⟩ := hsx.merge hsy hcx hcy (wellFormed_of_leaves hxs).2
        (wellFormed_of_leaves hys).2 hm
      refine ⟨ls ++ rs, xs ++ ys, ?_, leaves_append_ok.2 ⟨xs, ys, s₁, hxs, hys, rfl⟩, hcoherent,
        hsummary⟩
      exact bind_eq_ok_iff.2 ⟨ls, hls, bind_eq_ok_iff.2 ⟨rs, hrs, rfl⟩⟩
  | empty =>
      obtain ⟨heq, rfl⟩ := run_pure_ok.1 h
      obtain ⟨rfl, -⟩ := Prod.mk.inj heq
      exact ⟨[], [], rfl, leaves_nil_ok.2 ⟨rfl, rfl⟩, List.Pairwise.nil, Table.Groups.nil⟩
  | alien a => simp only [fold, run_throw, reduceCtorEq] at h

/-- What a tree folds to summarizes whatever leaves its routes compile to. -/
theorem summarizes_of_fold {rs : List Route} {ls : List Leaf} {p : Partial} {events : List Event}
    {s₁ : Collected} (hr : t.routes above = .ok rs) (hl : (leaves c rs).run s = .ok (ls, s'))
    (h : (t.fold c above).run s = .ok ((p, events), s₁)) : Coherent ls ∧ p.Summarizes ls := by
  obtain ⟨rs', ls', hr', hl', hcoherent, hsummary⟩ := fold_summarizes h
  obtain rfl := Except.ok.inj (hr.symm.trans hr')
  obtain ⟨rfl, -⟩ := Prod.mk.inj (Except.ok.inj (hl.symm.trans hl'))
  exact ⟨hcoherent, hsummary⟩

/-- The routes of a choice are those of its sides. -/
theorem routes_alt_ok {routes : List Route} (h : (alt l r).routes above = .ok routes) :
    ∃ ls rs, l.routes above = .ok ls ∧ r.routes above = .ok rs ∧ routes = ls ++ rs := by
  obtain ⟨ls, hl, h⟩ := bind_eq_ok_iff.1 h
  obtain ⟨rs, hr, h⟩ := bind_eq_ok_iff.1 h
  exact ⟨ls, rs, hl, hr, (pure_eq_ok_iff.1 h).symm⟩

/-- A tree whose routes compile one after the other folds if its leaves are
coherent, and stops with a conflict if they are not. -/
theorem fold_of_leaves {rs : List Route} {ls : List Leaf} (hr : t.routes above = .ok rs)
    (hl : (leaves c rs).run s = .ok (ls, s')) :
    (Coherent ls ∧ ∃ p events, (t.fold c above).run s = .ok ((p, events), s')) ∨
      (¬ Coherent ls ∧ ∃ conflict, (t.fold c above).run s = .error (.conflict conflict)) := by
  induction t generalizing above s s' rs ls with
  | leaf e =>
      obtain rfl := Except.ok.inj hr
      obtain ⟨l, hone, rfl⟩ := leaves_singleton_ok.1 hl
      obtain ⟨p, hp⟩ := exists_materialize hone
      exact .inl ⟨List.pairwise_singleton _ _, p, [], run_bind_ok.2 ⟨p, s', hp,
        run_pure_ok.2 ⟨rfl, rfl⟩⟩⟩
  | seq q t ih => exact ih hr hl
  | alt l r ihl ihr =>
      obtain ⟨ls₁, rs₁, hls, hrs, rfl⟩ := routes_alt_ok hr
      obtain ⟨xs, ys, s₁, hxs, hys, rfl⟩ := leaves_append_ok.1 hl
      rcases ihl hls hxs with ⟨hcx, left, before, hleft⟩ | ⟨hcx, conflict, hleft⟩
      · rcases ihr hrs hys with ⟨hcy, right, after, hright⟩ | ⟨hcy, conflict, hright⟩
        · have hsx := (summarizes_of_fold hls hxs hleft).2
          have hsy := (summarizes_of_fold hrs hys hright).2
          have hwx := (wellFormed_of_leaves hxs).2
          have hwy := (wellFormed_of_leaves hys).2
          cases hm : left.merge right with
          | ok merged =>
              have hcoherent := (hsx.merge hsy hcx hcy hwx hwy hm).1
              exact .inl ⟨hcoherent, merged, before ++ after ++ left.overrides right,
                fold_alt_of_merged hleft hright hm⟩
          | error conflict =>
              refine .inr ⟨fun h => ?_, conflict, fold_alt_of_conflict hleft hright hm⟩
              obtain ⟨merged, hok⟩ := hsx.exists_merge hsy hcx hcy hwx hwy h
              rw [hm] at hok
              cases hok
        · refine .inr ⟨fun h => hcy ((coherent_append_iff xs ys).1 h).2.1, conflict, ?_⟩
          rw [fold, run_bind_of_ok hleft, run_bind_of_error hright]
      · refine .inr ⟨fun h => hcx ((coherent_append_iff xs ys).1 h).1, conflict, ?_⟩
        rw [fold, run_bind_of_error hleft]
  | empty =>
      obtain rfl := Except.ok.inj hr
      obtain ⟨rfl, rfl⟩ := leaves_nil_ok.1 hl
      exact .inl ⟨List.Pairwise.nil, [], [], rfl⟩
  | alien a => simp [routes] at hr

end Tree

end ApiTree
