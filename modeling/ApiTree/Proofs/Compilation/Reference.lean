import ApiTree.Proofs.Compilation.Summary

/-!
# ApiTree.Proofs.Compilation.Reference

What a tree compiles to, told without its shape (`Tree.reference`): its routes are
compiled from left to right and put into groups, by path and then by method, and
the declarations of a group are merged in order.

The compiler merges wherever two sides of the tree meet instead.  Both come to the
same (`Tree.fold_refines_reference`), apart from the text of the response for a
path that is not found.  So it does not matter how alternatives are put together
(`Tree.Rearranged`).
-/

namespace ApiTree
open Compiling

/-! ## the reference -/

/-- The declarations of one operation merged in order. -/
def mergeInOrder (identity : String) : List Operation → Except Conflict Operation
  | [] => .ok {}
  | op :: ops => ops.foldlM (mergeOperations identity) op

/-- The entry of the leaves at one path, spelled as by the first of them.  Captures
take the names of the first leaf by their places. -/
def entryOf : List Leaf → Except Conflict PathEntry
  | [] => .ok { display := "", captures := [], operations := [] }
  | first :: rest => do
    let display := first.route.display
    let operations ← Table.groupM Leaf.method
      (fun m ls => mergeInOrder (m.upper ++ " " ++ display)
        (ls.map fun l => l.operation.respelled first.captures))
      (first :: rest)
    return { display, captures := first.captures, operations }

/-- Leaves put together path by path. -/
def entriesOf (ls : List Leaf) : Except Conflict Partial :=
  Table.groupM Leaf.key (fun _ => entryOf) ls

/-- What a tree below a chain of qualifiers compiles to, from its routes alone. -/
def Tree.reference (c : Catalog) (above : List Qualifier) (t : Tree) : Compiling Partial :=
  match t.routes above with
  | .error f => throw f
  | .ok rs => do
    let ls ← leaves c rs
    match entriesOf ls with
    | .error conflict => throw (.conflict conflict)
    | .ok p => return p

/-! ## groups of leaves -/

/-- Operations with one spelling have it together. -/
theorem Operation.spelledBy_unitedAll {names : List String} {ops : List Operation}
    (hne : ops ≠ []) (h : ∀ op ∈ ops, SpelledBy names op.parameters) :
    SpelledBy names (unitedAll ops).parameters := by
  obtain ⟨op, ops, rfl⟩ := List.exists_cons_of_ne_nil hne
  rw [parameters_unitedAll_cons]
  exact h op (by simp)

/-- One more operation is merged after the others. -/
theorem mergeInOrder_append_singleton {identity : String} {ops : List Operation} (hne : ops ≠ [])
    (op : Operation) : mergeInOrder identity (ops ++ [op]) =
      mergeInOrder identity ops >>= (mergeOperations identity · op) := by
  obtain ⟨first, rest, rfl⟩ := List.exists_cons_of_ne_nil hne
  simp [mergeInOrder, List.foldlM_append]

/-- Declarations merge in order exactly when every two of them agree. -/
theorem mergeInOrder_eq_ok_iff {names : List String} {ops : List Operation} {m : Operation}
    {identity : String} (hs : ∀ op ∈ ops, SpelledBy names op.parameters)
    (hp : ∀ op ∈ ops, op.Proper) :
    mergeInOrder identity ops = .ok m ↔
      ops.Pairwise Operation.Agrees ∧ m = Operation.unitedAll ops := by
  induction ops using List.reverseRecOn generalizing m with
  | nil => simp [mergeInOrder, Operation.unitedAll, eq_comm]
  | append_singleton ops x ih =>
      by_cases hne : ops = []
      · subst hne
        simp [mergeInOrder, Operation.unitedAll, pure, Except.pure, eq_comm]
      · have hs' : ∀ op ∈ ops, SpelledBy names op.parameters :=
          fun op hop => hs op (List.mem_append_left _ hop)
        have hp' : ∀ op ∈ ops, op.Proper := fun op hop => hp op (List.mem_append_left _ hop)
        have hx := hs x (by simp)
        have harity : ∀ op ∈ ops, op.arity = x.arity := fun op hop => by
          rw [Operation.arity, Operation.arity, (hs' op hop).length_captured, hx.length_captured]
        have hmerge : mergeOperations identity (Operation.unitedAll ops) x = .ok m ↔
            (Operation.unitedAll ops).Agrees x ∧ m = (Operation.unitedAll ops).united x :=
          mergeOperations_eq_ok_iff (Operation.spelledBy_unitedAll hne hs') hx (hp x (by simp))
        rw [mergeInOrder_append_singleton hne, bind_eq_ok_iff, List.pairwise_append,
          Operation.unitedAll_append_singleton hne]
        constructor
        · rintro ⟨u, hu, hm⟩
          obtain ⟨hpair, rfl⟩ := (ih hs' hp').1 hu
          obtain ⟨hagree, rfl⟩ := hmerge.1 hm
          refine ⟨⟨hpair, List.pairwise_singleton _ _, fun op hop y hy => ?_⟩, rfl⟩
          rw [List.mem_singleton.1 hy]
          exact (Operation.unitedAll_agrees_iff hne hp' harity hpair).1 hagree op hop
        · rintro ⟨⟨hpair, -, hcross⟩, rfl⟩
          refine ⟨_, (ih hs' hp').2 ⟨hpair, rfl⟩, hmerge.2 ⟨?_, rfl⟩⟩
          exact (Operation.unitedAll_agrees_iff hne hp' harity hpair).2
            fun op hop => hcross op hop x (by simp)

section Groups

variable {ls : List Leaf} {e : PathEntry} {p : Partial}

/-- The captures of leaves at one path can be spelled as by any of them. -/
theorem spelledBy_of_sameKey {l first : Leaf} (hl : l.WellFormed) (hfirst : first.WellFormed)
    (hkey : l.key = first.key) :
    SpelledBy first.captures (l.operation.respelled first.captures).parameters :=
  spelledBy_respelled hl.spelled hfirst.spelled.nodup_names (Leaf.length_captures hkey.symm)

/-- The operations of a group merge exactly if any two can stand for each other. -/
theorem mergeInOrder_group_iff {first : Leaf} {m : Operation} {identity : String}
    (hfirst : first.WellFormed) (hwf : ∀ l ∈ ls, l.WellFormed)
    (hkey : ∀ l ∈ ls, l.key = first.key) :
    mergeInOrder identity (ls.map fun l => l.operation.respelled first.captures) = .ok m ↔
      (ls.Pairwise fun l l' => l.operation.Agrees l'.operation) ∧
        m = Operation.unitedAll (ls.map fun l => l.operation.respelled first.captures) := by
  have hspelled : ∀ op ∈ ls.map fun l => l.operation.respelled first.captures,
      SpelledBy first.captures op.parameters := by
    intro op hop
    obtain ⟨l, hl, rfl⟩ := List.mem_map.1 hop
    exact spelledBy_of_sameKey (hwf l hl) hfirst (hkey l hl)
  have hproper : ∀ op ∈ ls.map fun l => l.operation.respelled first.captures, op.Proper := by
    intro op hop
    obtain ⟨l, hl, rfl⟩ := List.mem_map.1 hop
    exact (Operation.proper_respelled_iff _ _).2 (hwf l hl).proper
  rw [mergeInOrder_eq_ok_iff hspelled hproper, List.pairwise_map]
  simp only [Operation.respelled_agrees_iff, Operation.agrees_respelled_iff]

/-- An entry of leaves has leaves that go together, and stands for them. -/
theorem entryOf_ok (hne : ls ≠ []) (hwf : ∀ l ∈ ls, l.WellFormed)
    (hkey : ∀ l ∈ ls, ∀ l' ∈ ls, l.key = l'.key) (h : entryOf ls = .ok e) :
    Coherent ls ∧ e.Summarizes ls := by
  obtain ⟨first, rest, rfl⟩ := List.exists_cons_of_ne_nil hne
  obtain ⟨operations, hops, h⟩ := bind_eq_ok_iff.1 h
  obtain rfl := pure_eq_ok_iff.1 h
  obtain ⟨hkeys, hvalues⟩ := Table.groups_of_groupM hops
  have hgroup : ∀ m op, operations.find? m = some op →
      (((first :: rest).filter (·.method = m)).Pairwise fun l l' =>
        l.operation.Agrees l'.operation) ∧
      op = Operation.unitedAll (((first :: rest).filter (·.method = m)).map fun l =>
        l.operation.respelled first.captures) := by
    intro m op hop
    exact (mergeInOrder_group_iff (hwf first (by simp))
      (fun l hl => hwf l (List.mem_of_mem_filter hl))
      fun l hl => hkey l (List.mem_of_mem_filter hl) first (by simp)).1 (hvalues m op hop)
  constructor
  · have hpair : (first :: rest).Pairwise fun l l' =>
        l.method = l'.method → l.operation.Agrees l'.operation := by
      refine pairwise_of_groups fun l hl => ?_
      have hm : l.method ∈ operations.keys := by
        rw [hkeys, List.mem_eraseDups]
        exact List.mem_map.2 ⟨l, hl, rfl⟩
      obtain ⟨op, hop⟩ := (Table.mem_keys_iff operations _).1 hm
      exact (hgroup l.method op hop).1
    exact hpair.imp fun hagree _ hm => hagree hm
  · refine ⟨rfl, rfl, hkeys, fun m op hop => ?_⟩
    obtain ⟨x, hx, hxm⟩ := List.mem_map.1 <| List.mem_eraseDups.1 <|
      hkeys ▸ (Table.mem_keys_iff operations m).2 ⟨op, hop⟩
    have hne : (((first :: rest).filter (·.method = m)).map (·.operation)) ≠ [] :=
      List.ne_nil_of_mem (List.mem_map.2 ⟨x, mem_group_iff.2 ⟨hx, hxm⟩, rfl⟩)
    rw [(hgroup m op hop).2, together, ← Operation.unitedAll_map_respelled _ hne, List.map_map]
    rfl

/-- Coherent leaves at one path make an entry. -/
theorem exists_entryOf (hls : AtOnePath ls) : ∃ e, entryOf ls = .ok e := by
  cases ls with
  | nil => exact ⟨_, rfl⟩
  | cons first rest =>
      obtain ⟨operations, hops⟩ : ∃ operations, Table.groupM Leaf.method
          (fun m ls => mergeInOrder (m.upper ++ " " ++ first.route.display)
            (ls.map fun l => l.operation.respelled first.captures)) (first :: rest) =
          .ok operations := by
        refine Table.exists_groupM fun l hl => ?_
        exact ⟨_, (mergeInOrder_group_iff (hls.wellFormed first (by simp))
          (fun x hx => hls.wellFormed x (List.mem_of_mem_filter hx))
          fun x hx => hls.key x (List.mem_of_mem_filter hx) first (by simp)).2
            ⟨hls.pairwise_agrees _, rfl⟩⟩
      exact ⟨_, bind_eq_ok_iff.2 ⟨operations, hops, rfl⟩⟩

/-- Entries of leaves have leaves that go together, and stand for them. -/
theorem entriesOf_ok (hwf : ∀ l ∈ ls, l.WellFormed) (h : entriesOf ls = .ok p) :
    Coherent ls ∧ p.Summarizes ls := by
  obtain ⟨hkeys, hvalues⟩ := Table.groups_of_groupM h
  have hentry : ∀ k e, Table.find? p k = some e →
      Coherent (ls.filter (·.key = k)) ∧ e.Summarizes (ls.filter (·.key = k)) := by
    intro k e he
    obtain ⟨l, hl, hk⟩ := List.mem_map.1 <| List.mem_eraseDups.1 <|
      hkeys ▸ (Table.mem_keys_iff p k).2 ⟨e, he⟩
    exact entryOf_ok (List.ne_nil_of_mem (mem_group_iff.2 ⟨hl, hk⟩))
      (fun x hx => hwf x (List.mem_of_mem_filter hx)) eq_of_mem_group
      (hvalues k e he)
  refine ⟨?_, hkeys, fun k e he => (hentry k e he).2⟩
  have hpair : ls.Pairwise fun l l' => l.key = l'.key →
      l.key = l'.key → l.method = l'.method → l.operation.Agrees l'.operation := by
    refine pairwise_of_groups fun l hl => ?_
    have hk : l.key ∈ Table.keys p := by
      rw [hkeys, List.mem_eraseDups]
      exact List.mem_map.2 ⟨l, hl, rfl⟩
    obtain ⟨e, he⟩ := (Table.mem_keys_iff p _).1 hk
    exact (hentry l.key e he).1
  exact hpair.imp fun hagree hk => hagree hk hk

/-- Leaves that go together have entries. -/
theorem exists_entriesOf (hwf : ∀ l ∈ ls, l.WellFormed) (h : Coherent ls) :
    ∃ p, entriesOf ls = .ok p :=
  Table.exists_groupM fun l _ => exists_entryOf (Partial.Summarizes.atOnePath hwf h l.key)

end Groups

/-! ## what the text of a path that is not found leaves out -/

/-- The entry without the texts of responses for a path that is not found. -/
def PathEntry.muted (e : PathEntry) : PathEntry :=
  { e with operations := e.operations.mapValues fun _ => Operation.muted }

/-- The partial document without the texts of responses for a path that is not found. -/
def Partial.muted (p : Partial) : Partial := Table.mapValues (fun _ => PathEntry.muted) p

/-- Leaves have one summary. -/
theorem PathEntry.Summarizes.unique {e f : PathEntry} {ls : List Leaf} (he : e.Summarizes ls)
    (hf : f.Summarizes ls) : e.muted = f.muted := by
  have hdisplay : e.display = f.display := Option.some.inj (he.display.symm.trans hf.display)
  have hcaptures : e.captures = f.captures := Option.some.inj (he.captures.symm.trans hf.captures)
  have hoperations := he.operations.unique (hcaptures ▸ hf.operations)
    (g := fun _ => Operation.muted) fun m a b ha hb => by
      rw [he.operations.values m a ha, hf.operations.values m b hb, hcaptures]
  rw [PathEntry.muted, PathEntry.muted, hdisplay, hcaptures, hoperations]

/-- Leaves determine what stands for them, up to the texts of responses. -/
theorem Partial.Summarizes.unique {p q : Partial} {ls : List Leaf} (hp : p.Summarizes ls)
    (hq : q.Summarizes ls) : p.muted = q.muted :=
  Table.Groups.unique hp hq fun k e f he hf =>
    PathEntry.Summarizes.unique (hp.values k e he) (hq.values k f hf)

/-! ## trees of one list of routes -/

namespace Tree

/-- Trees that differ in how alternatives are put together, in where a qualifier
stands above them, and in parts without routes. -/
inductive Rearranged : Tree → Tree → Prop
  | refl (t : Tree) : Rearranged t t
  | symm {t u : Tree} : Rearranged t u → Rearranged u t
  | trans {t u v : Tree} : Rearranged t u → Rearranged u v → Rearranged t v
  | seq (q : Qualifier) {t u : Tree} : Rearranged t u → Rearranged (.seq q t) (.seq q u)
  | alt {l l' r r' : Tree} : Rearranged l l' → Rearranged r r' →
    Rearranged (.alt l r) (.alt l' r')
  | regroup (a b c : Tree) : Rearranged (.alt (.alt a b) c) (.alt a (.alt b c))
  | distribute (q : Qualifier) (l r : Tree) :
    Rearranged (.seq q (.alt l r)) (.alt (.seq q l) (.seq q r))
  | emptyLeft (t : Tree) : Rearranged (.alt .empty t) t
  | emptyRight (t : Tree) : Rearranged (.alt t .empty) t
  | emptyBelow (q : Qualifier) : Rearranged (.seq q .empty) .empty

/-- A tree that is rearranged has the same routes. -/
theorem Rearranged.routes_eq {t u : Tree} (h : t.Rearranged u) (above : List Qualifier) :
    t.routes above = u.routes above := by
  induction h generalizing above with
  | refl t => rfl
  | symm _ ih => exact (ih above).symm
  | trans _ _ ih₁ ih₂ => exact (ih₁ above).trans (ih₂ above)
  | seq q _ ih => exact ih (above ++ [q])
  | alt _ _ ihl ihr => simp only [routes, ihl, ihr]
  | regroup a b c => simp only [routes, bind_assoc, pure_bind, List.append_assoc]
  | distribute q l r => rfl
  | emptyLeft t =>
      cases h : t.routes above <;> simp [routes, h, bind, Except.bind, pure, Except.pure]
  | emptyRight t =>
      cases h : t.routes above <;> simp [routes, h, bind, Except.bind, pure, Except.pure]
  | emptyBelow q => rfl

/-! ## the compiler and the reference -/

variable {c : Catalog} {above : List Qualifier} {t : Tree} {s s' : Collected} {p q : Partial}
  {events : List Event}

/-- The reference lists the leaves and puts them together by key and method. -/
theorem reference_ok : (t.reference c above).run s = .ok (q, s') ↔
    ∃ rs ls, t.routes above = .ok rs ∧ (leaves c rs).run s = .ok (ls, s') ∧
      entriesOf ls = .ok q := by
  rw [reference]
  cases hr : t.routes above with
  | error f => simp only [run_throw, reduceCtorEq, false_and, exists_false]
  | ok rs =>
      rw [run_bind_ok]
      constructor
      · rintro ⟨ls, t', hl, h⟩
        cases he : entriesOf ls with
        | error conflict => simp only [he, run_throw, reduceCtorEq] at h
        | ok p =>
            simp only [he] at h
            obtain ⟨rfl, rfl⟩ := run_pure_ok.1 h
            exact ⟨rs, ls, rfl, hl, he⟩
      · rintro ⟨rs', ls, hrs, hl, he⟩
        obtain rfl := Except.ok.inj hrs
        refine ⟨ls, s', hl, ?_⟩
        simp only [he]
        exact run_pure_ok.2 ⟨rfl, rfl⟩

/-- What folds has a reference that is equal up to texts. -/
theorem exists_reference_of_fold (h : (t.fold c above).run s = .ok ((p, events), s')) :
    ∃ q, (t.reference c above).run s = .ok (q, s') ∧ p.muted = q.muted := by
  obtain ⟨rs, ls, hr, hl, hcoherent, hp⟩ := fold_summarizes h
  have hwf := (wellFormed_of_leaves hl).2
  obtain ⟨q, hq⟩ := exists_entriesOf hwf hcoherent
  exact ⟨q, reference_ok.2 ⟨rs, ls, hr, hl, hq⟩, hp.unique (entriesOf_ok hwf hq).2⟩

/-- What has a reference folds. -/
theorem exists_fold_of_reference (h : (t.reference c above).run s = .ok (q, s')) :
    ∃ p events, (t.fold c above).run s = .ok ((p, events), s') ∧ p.muted = q.muted := by
  obtain ⟨rs, ls, hr, hl, hq⟩ := reference_ok.1 h
  obtain ⟨hcoherent, hsummary⟩ := entriesOf_ok (wellFormed_of_leaves hl).2 hq
  rcases fold_of_leaves hr hl with ⟨-, p, events, hp⟩ | ⟨hnot, -⟩
  · exact ⟨p, events, hp, (summarizes_of_fold hr hl hp).2.unique hsummary⟩
  · exact absurd hcoherent hnot

/-- A tree that is rearranged has the same reference. -/
theorem Rearranged.reference_eq {u : Tree} (h : t.Rearranged u) :
    t.reference c above = u.reference c above := by
  rw [reference, reference, h.routes_eq]

/-- Beside another tree, a tree folds to what it folds to by itself: entries of
paths that only one side has are those of that side. -/
theorem fold_alt_siblings {l r : Tree}
    (h : ((alt l r).fold c above).run s = .ok ((p, events), s')) :
    ∃ left right before after s₁, (l.fold c above).run s = .ok ((left, before), s₁) ∧
      (r.fold c above).run s₁ = .ok ((right, after), s') ∧
      ∀ k, (k ∉ Table.keys left → Table.find? p k = Table.find? right k) ∧
        (k ∉ Table.keys right → Table.find? p k = Table.find? left k) := by
  obtain ⟨left, right, before, after, s₁, hl, hr, hm⟩ := fold_alt_ok h
  obtain ⟨_, _, -, -, -, hsummary⟩ := fold_summarizes hr
  refine ⟨left, right, before, after, s₁, hl, hr, fun k => ?_⟩
  have hk := Table.find?_mergeM (Table.Groups.nodup_keys hsummary) hm k
  constructor
  · intro hnone
    rw [(Table.find?_eq_none_iff left k).2 hnone] at hk
    generalize Table.find? right k = b, Table.find? p k = x at hk ⊢
    cases hk <;> rfl
  · intro hnone
    rw [(Table.find?_eq_none_iff right k).2 hnone] at hk
    generalize Table.find? left k = a, Table.find? p k = x at hk ⊢
    cases hk <;> rfl

/-- The compiler refines the reference: it succeeds exactly when the reference
does and collects the same components, and then the two are equal apart from the texts of
responses for paths that are not found.  Rearranging the tree changes neither,
and what a tree folds to does not depend on the qualifiers of its sibling. -/
theorem fold_refines_reference (c : Catalog) (above : List Qualifier) (s : Collected) :
    (∀ (t : Tree) p events s', (t.fold c above).run s = .ok ((p, events), s') →
      ∃ q, (t.reference c above).run s = .ok (q, s') ∧ p.muted = q.muted) ∧
    (∀ (t : Tree) q s', (t.reference c above).run s = .ok (q, s') →
      ∃ p events, (t.fold c above).run s = .ok ((p, events), s') ∧ p.muted = q.muted) ∧
    (∀ (t u : Tree) p events s', t.Rearranged u →
      (t.fold c above).run s = .ok ((p, events), s') →
      ∃ q events', (u.fold c above).run s = .ok ((q, events'), s') ∧ p.muted = q.muted) ∧
    (∀ (q : Qualifier) (l r : Tree) p events s',
      ((alt (seq q l) r).fold c above).run s = .ok ((p, events), s') →
      ∃ left right before after s₁,
        (l.fold c (above ++ [q])).run s = .ok ((left, before), s₁) ∧
        (r.fold c above).run s₁ = .ok ((right, after), s') ∧
        ∀ k, (k ∉ Table.keys left → Table.find? p k = Table.find? right k) ∧
          (k ∉ Table.keys right → Table.find? p k = Table.find? left k)) := by
  refine ⟨fun t p events s' h => exists_reference_of_fold h,
    fun t q s' h => exists_fold_of_reference h, fun t u p events s' htu h => ?_,
    fun q l r p events s' h => fold_alt_siblings h⟩
  obtain ⟨q, hq, hpq⟩ := exists_reference_of_fold h
  rw [htu.reference_eq] at hq
  obtain ⟨p', events', hp', hp'q⟩ := exists_fold_of_reference hq
  exact ⟨p', events', hp', hpq.trans hp'q.symm⟩

/-- A route below a segment. -/
def belowSegment (name : String) (status : Int) : Tree :=
  .seq (.capture name (.scalar .str) none) (.leaf { method := .get, status })

/-- Two routes at one path, the captures of which have different names. -/
def twoSpellings : Tree :=
  .alt (.seq (.segment "u") (belowSegment "id" 200))
    (.alt .empty (.seq (.segment "u") (belowSegment "name" 201)))

/-- The compiler and the reference on two routes that share a path and a method. -/
theorem twoSpellings_refines_reference :
    ∃ p q events s', (twoSpellings.fold [] []).run {} = .ok ((p, events), s') ∧
      (twoSpellings.reference [] []).run {} = .ok (q, s') ∧
      (∃ p₁ events₁, (twoSpellings.fold [] []).run {} = .ok ((p₁, events₁), s') ∧
        p₁.muted = q.muted) ∧
      (∃ p₂ events₂, ((alt .empty twoSpellings).fold [] []).run {} = .ok ((p₂, events₂), s') ∧
        p.muted = p₂.muted) ∧
      ∃ left right before after s₁,
        ((belowSegment "id" 200).fold [] [.segment "u"]).run {} = .ok ((left, before), s₁) ∧
        ((alt .empty (.seq (.segment "u") (belowSegment "name" 201))).fold [] []).run s₁ =
          .ok ((right, after), s') ∧
        ∀ k, (k ∉ Table.keys left → Table.find? p k = Table.find? right k) ∧
          (k ∉ Table.keys right → Table.find? p k = Table.find? left k) := by
  have hok : ((twoSpellings.fold [] []).run {}).toOption.isSome = true := by decide +kernel
  obtain ⟨⟨⟨p, events⟩, s'⟩, h⟩ := Option.isSome_iff_exists.1 hok
  have hfold := toOption_eq_some_iff.1 h
  obtain ⟨hreference, hback, hrearranged, hsiblings⟩ := fold_refines_reference [] [] {}
  obtain ⟨q, hq, -⟩ := hreference twoSpellings p events s' hfold
  exact ⟨p, q, events, s', hfold, hq, hback twoSpellings q s' hq,
    hrearranged twoSpellings _ p events s' (.symm (.emptyLeft _)) hfold,
    hsiblings _ _ _ p events s' hfold⟩

end Tree
end ApiTree
