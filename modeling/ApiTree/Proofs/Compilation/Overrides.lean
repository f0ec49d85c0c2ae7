import ApiTree.Proofs.Compilation.Answers
import ApiTree.Proofs.Document.Sameness

/-!
# ApiTree.Proofs.Compilation.Overrides

Responses that others replace.  Where two sides of a tree are merged, the responses of an operation
are compared status by status: what the left side has with what the right side has, each the last
of its leaves (`Partial.Unites.getLast?_answersAt`).  Equality of responses is symmetric and
transitive, so some merge meets a difference just if two leaves differ (`Tree.replaces_iff`).

* `compile_overrides` — the events of a compilation are those of its merges; one of them is about
  a path, method and status just if two routes of that path and method have responses for the
  status that differ by value.
-/

namespace ApiTree
open Compiling

/-! ## lists of which the last elements are compared -/

section Last

variable {α : Type} {R : α → α → Prop} {xs ys : List α}

/-- A list with an element has a last one. -/
theorem exists_getLast? {x : α} (h : x ∈ xs) : ∃ y, xs.getLast? = some y :=
  ⟨_, List.getLast?_eq_some_getLast (List.ne_nil_of_mem h)⟩

/-- Each element is the last one or related to it. -/
theorem eq_or_rel_of_getLast? (h : xs.Pairwise R) {y : α} (hy : xs.getLast? = some y) :
    ∀ x ∈ xs, x = y ∨ R x y := by
  obtain ⟨front, rfl⟩ := List.getLast?_eq_some_iff.1 hy
  intro x hx
  rcases List.mem_append.1 hx with hx | hx
  · exact .inr ((List.pairwise_append.1 h).2.2 x hx y (List.mem_singleton_self y))
  · exact .inl (List.mem_singleton.1 hx)

/-- Elements are pairwise related in two lists together just if they are in each, and the last
elements are related. -/
theorem pairwise_append_iff_getLast? (hsymm : ∀ x ∈ ys, ∀ y ∈ ys, R x y → R y x)
    (htrans : ∀ x ∈ xs ++ ys, ∀ y ∈ xs ++ ys, ∀ z ∈ xs ++ ys, R x y → R y z → R x z) :
    (xs ++ ys).Pairwise R ↔ xs.Pairwise R ∧ ys.Pairwise R ∧
      ∀ x y, xs.getLast? = some x → ys.getLast? = some y → R x y := by
  rw [List.pairwise_append]
  refine and_congr_right fun hxs => and_congr_right fun hys => ⟨fun h x y hx hy => ?_, ?_⟩
  · exact h x (List.mem_of_getLast? hx) y (List.mem_of_getLast? hy)
  intro h x hx y hy
  obtain ⟨x', hx'⟩ := exists_getLast? hx
  obtain ⟨y', hy'⟩ := exists_getLast? hy
  have hmemx := List.mem_append_left ys (List.mem_of_getLast? hx')
  have hmemy := List.mem_append_right xs (List.mem_of_getLast? hy')
  have hmem := List.mem_append_left ys hx
  -- from `x` to the last one on the left, across, and back to `y` on the right
  have hacross : R x y' := by
    rcases eq_or_rel_of_getLast? hxs hx' x hx with rfl | hlast
    · exact h x y' hx' hy'
    · exact htrans x hmem x' hmemx y' hmemy hlast (h x' y' hx' hy')
  rcases eq_or_rel_of_getLast? hys hy' y hy with rfl | hlast
  · exact hacross
  · have hback := hsymm y hy y' (List.mem_of_getLast? hy') hlast
    exact htrans x hmem y' hmemy y (List.mem_append_right xs hy) hacross hback

end Last

/-! ## responses of leaves -/

/-- A content repeats no content type. -/
theorem ContentOf.nodup_keys {given : Ty → Schema → Prop} {t : Ty} {contentTypes : List String}
    {content : Table String MediaType} (h : ContentOf given t contentTypes content) :
    content.keys.Nodup := by
  cases h with
  | nothing h => exact List.nodup_nil
  | under x ht h => exact Table.nodup_keys_ofList _

/-- No part of a response of a route is repeated. -/
theorem Route.Makes.tidy {es : List (Request × Schema)} {r : Route}
    {responses : Table String Response} (h : r.Makes es responses) {status : String} {x : Response}
    (hx : responses.find? status = some x) : x.Tidy := by
  rcases h.find?_cases status with ⟨d, content, -, hcontent, hfind⟩ |
    ⟨content, headers, -, -, hcontent, -, hfind⟩ | ⟨-, hfind⟩
  · obtain rfl := Option.some.inj (hx.symm.trans hfind)
    exact ⟨hcontent.nodup_keys, List.nodup_nil⟩
  · obtain rfl := Option.some.inj (hx.symm.trans hfind)
    exact ⟨hcontent.nodup_keys, Table.nodup_keys_ofList _⟩
  · obtain ⟨text, -, rfl⟩ := Option.map_eq_some_iff.1 (hfind.symm.trans hx)
    exact ⟨List.nodup_nil, List.nodup_nil⟩

/-- The responses of leaves are tidy. -/
theorem tidy_of_leaves {c : Catalog} {rs : List Route} {ls : List Leaf} {s s' : Collected}
    (h : (leaves c rs).run s = .ok (ls, s')) : ∀ l ∈ ls, ∀ status x,
      l.operation.responses.find? status = some x → x.Tidy := by
  refine forall_mem_leaves (fun r s l s' hl status x hx => ?_) h
  obtain ⟨op, t, hop, hl⟩ := run_bind_ok.1 hl
  obtain ⟨rfl, -⟩ := run_pure_ok.1 hl
  obtain ⟨es, -, hmakes⟩ := asks_operationOf_made r s op t hop
  exact hmakes.tidy hx

/-- The responses that leaves of a path and method have for a status, in order. -/
def answersAt (ls : List Leaf) (k : PathKey) (m : Method) (status : String) : List Response :=
  ls.filterMap fun l =>
    if l.key = k ∧ l.method = m then l.operation.responses.find? status else none

section AnswersAt

variable {k : PathKey} {m : Method} {status : String}

/-- The answers of two lists of leaves come one list after the other. -/
theorem answersAt_append (ls rs : List Leaf) (k : PathKey) (m : Method) (status : String) :
    answersAt (ls ++ rs) k m status = answersAt ls k m status ++ answersAt rs k m status :=
  List.filterMap_append

/-- The answer of the first leaf comes first. -/
theorem answersAt_cons (l : Leaf) (ls : List Leaf) (k : PathKey) (m : Method) (status : String) :
    answersAt (l :: ls) k m status =
      (if l.key = k ∧ l.method = m then l.operation.responses.find? status else none).toList ++
        answersAt ls k m status := by
  rw [answersAt, List.filterMap_cons]
  split <;> next h => rw [h]; rfl

/-- An answer is that of a leaf at the place. -/
theorem mem_answersAt {ls : List Leaf} {x : Response} :
    x ∈ answersAt ls k m status ↔ ∃ l ∈ ls, (l.key = k ∧ l.method = m) ∧
      l.operation.responses.find? status = some x := by
  simp only [answersAt, List.mem_filterMap, Option.ite_none_right_eq_some]

/-- Of two leaves of a path and method, the first one has the response `x` for a status and the
second one `y`. -/
def Rivals (ls : List Leaf) (k : PathKey) (m : Method) (status : String) (x y : Response) : Prop :=
  ∃ i j l r, i < j ∧ Stands ls k m i l ∧ Stands ls k m j r ∧
    l.operation.responses.find? status = some x ∧ r.operation.responses.find? status = some y

/-- Not all answers are related exactly if two rivals are not. -/
theorem not_pairwise_answersAt_iff {R : Response → Response → Prop} {ls : List Leaf} :
    ¬ (answersAt ls k m status).Pairwise R ↔ ∃ x y, Rivals ls k m status x y ∧ ¬ R x y := by
  rw [answersAt, List.pairwise_filterMap, List.pairwise_iff_getElem]
  simp only [Option.ite_none_right_eq_some]
  constructor
  · intro h
    push Not at h
    obtain ⟨i, j, hi, hj, hij, x, ⟨⟨hik, him⟩, hx⟩, y, ⟨⟨hjk, hjm⟩, hy⟩, hxy⟩ := h
    exact ⟨x, y, ⟨i, j, ls[i], ls[j], hij, ⟨List.getElem?_eq_getElem hi, hik, him⟩,
      ⟨List.getElem?_eq_getElem hj, hjk, hjm⟩, hx, hy⟩, hxy⟩
  · rintro ⟨x, y, ⟨i, j, l, r, hij, hl, hr, hx, hy⟩, hxy⟩ h
    obtain ⟨hi, rfl⟩ := List.getElem?_eq_some_iff.1 hl.here
    obtain ⟨hj, rfl⟩ := List.getElem?_eq_some_iff.1 hr.here
    exact hxy (h i j hi hj hij x ⟨⟨hl.key, hl.method⟩, hx⟩ y ⟨⟨hr.key, hr.method⟩, hy⟩)

/-- Except for a path that is not found, responses arrive at the root as they are. -/
theorem answersAt_arrivals {xs : List Passage} {ls : List Leaf} (hstatus : status ≠ "404")
    (h : xs.map (·.route) = ls.map Leaf.route) :
    answersAt (arrivals xs ls) k m status = answersAt ls k m status := by
  induction ls generalizing xs with
  | nil =>
      obtain rfl := List.map_eq_nil_iff.1 h
      rfl
  | cons l ls ih =>
      cases xs with
      | nil => cases h
      | cons x xs =>
          obtain ⟨hroute, hrest⟩ := List.cons.inj h
          have hroute : x.route = l.route := hroute
          have hresponse : x.response status = id := funext fun r => if_neg hstatus
          have hfind : (x.arrival l).operation.responses.find? status =
              l.operation.responses.find? status := by
            rw [Passage.arrival, Passage.find?_responses_operation, hresponse, Option.map_id, id]
          have harrivals : arrivals (x :: xs) (l :: ls) = x.arrival l :: arrivals xs ls := rfl
          rw [harrivals, answersAt_cons, answersAt_cons, ih hrest, hfind, Leaf.key, Leaf.method,
            Passage.arrival, hroute]
          rfl

/-- The response of an operation for a status in what a part of a tree folds to. -/
def Partial.responseAt (p : Partial) (k : PathKey) (m : Method) (status : String) :
    Option Response :=
  (p.operationAt k m).bind fun op => op.responses.find? status

/-- An operation has, for each status, the last response of the leaves behind it. -/
theorem Partial.Unites.getLast?_answersAt {p : Partial} {zs : List Leaf} (hp : p.Unites zs)
    (hproper : ∀ z ∈ zs, z.operation.Proper) (k : PathKey) (m : Method) (status : String) :
    p.responseAt k m status = (answersAt zs k m status).getLast? := by
  rw [Partial.responseAt, answersAt, List.getLast?_filterMap]
  by_cases h : ∃ z ∈ zs, z.key = k ∧ z.method = m
  · obtain ⟨z, hz, rfl, rfl⟩ := h
    obtain ⟨op, hop, hresponses⟩ := hp.find?_responses hproper hz
    rw [hop, Option.bind_some, hresponses status]
  · have hnone : p.operationAt k m = none := by
      refine Option.eq_none_iff_forall_ne_some.2 fun op hop => h ?_
      obtain ⟨e, he, hop⟩ := Option.bind_eq_some_iff.1 hop
      obtain ⟨z, hz, hm⟩ := ((hp.values k e he).find?_isSome_iff m).1 ⟨op, hop⟩
      obtain ⟨hz, hk⟩ := mem_group_iff.1 hz
      exact ⟨z, hz, hk, hm⟩
    rw [hnone, Option.bind_none, eq_comm, List.findSome?_eq_none_iff]
    intro z hz
    rw [if_neg fun hat => h ⟨z, List.mem_reverse.1 hz, hat⟩]

/-- The answers of leaves are tidy. -/
theorem tidy_of_mem_answersAt {c : Catalog} {rs : List Route} {ls : List Leaf} {s s' : Collected}
    (h : (leaves c rs).run s = .ok (ls, s')) (k : PathKey) (m : Method) (status : String) :
    ∀ x ∈ answersAt ls k m status, x.Tidy := by
  intro x hx
  obtain ⟨l, hl, -, hfind⟩ := mem_answersAt.1 hx
  exact tidy_of_leaves h l hl status x hfind

end AnswersAt

/-! ## merges -/

/-- Both sides of a merge have declarations of one operation: the one on the left, with the method
and path it goes by, and the one on the right in the spelling of the left. -/
def Partial.Meets (left right : Partial) (k : PathKey) (m : Method) (title : String)
    (a b : Operation) : Prop :=
  ∃ e f, Table.find? left k = some e ∧ Table.find? right k = some f ∧ title = e.title m ∧
    e.operations.find? m = some a ∧ (e.spelledAs f).find? m = some b

/-- A merge somewhere in a tree has declarations of one operation on its two sides. -/
inductive Tree.Merges (c : Catalog) (k : PathKey) (m : Method) (title : String)
    (a b : Operation) : List Qualifier → Collected → Tree → Prop
  | under {above : List Qualifier} {q : Qualifier} {t : Tree} {s : Collected}
    (h : Merges c k m title a b (above ++ [q]) s t) : Merges c k m title a b above s (.seq q t)
  | left {above : List Qualifier} {l r : Tree} {s : Collected}
    (h : Merges c k m title a b above s l) : Merges c k m title a b above s (.alt l r)
  | right {above : List Qualifier} {l r : Tree} {s s' : Collected} {x : Partial × List Event}
    (hl : (l.fold c above).run s = .ok (x, s')) (h : Merges c k m title a b above s' r) :
    Merges c k m title a b above s (.alt l r)
  | here {above : List Qualifier} {l r : Tree} {s s₁ s' : Collected} {x y : Partial × List Event}
    (hl : (l.fold c above).run s = .ok (x, s₁)) (hr : (r.fold c above).run s₁ = .ok (y, s'))
    (h : x.1.Meets y.1 k m title a b) : Merges c k m title a b above s (.alt l r)

/-- A merge of a path and method tells that a response for a status is replaced. -/
def Tree.Replaces (c : Catalog) (above : List Qualifier) (s : Collected) (t : Tree) (k : PathKey)
    (m : Method) (status : String) : Prop :=
  ∃ title a b old new, t.Merges c k m title a b above s ∧
    Event.responseOverride title status old new ∈ overrides title a b

/-- A merge tells of each response that replaces a different one. -/
theorem mem_overrides_iff {title : String} {a b : Operation} (hb : b.responses.keys.Nodup)
    {event : Event} : event ∈ overrides title a b ↔ ∃ status x y,
      a.responses.find? status = some x ∧ b.responses.find? status = some y ∧
      x.same y = false ∧ event = .responseOverride title status x.description y.description := by
  rw [overrides, List.mem_filterMap]
  constructor
  · rintro ⟨⟨status, y⟩, hy, hevent⟩
    cases hx : a.responses.find? status with
    | none => simp [hx] at hevent
    | some x =>
        simp only [hx, Option.ite_none_left_eq_some, Option.some.injEq] at hevent
        exact ⟨status, x, y, hx, Table.find?_of_mem hb hy, by simpa using hevent.1,
          hevent.2.symm⟩
  · rintro ⟨status, x, y, hx, hy, hsame, rfl⟩
    exact ⟨(status, y), Table.mem_of_find? hy, by simp [hx, hsame]⟩

/-- What a merge tells is what it tells of the operations that both sides have. -/
theorem Partial.mem_overrides_iff {left right : Partial} {zs : List Leaf} (hr : right.Unites zs)
    {event : Event} : event ∈ left.overrides right ↔ ∃ k m title a b,
      left.Meets right k m title a b ∧ event ∈ ApiTree.overrides title a b := by
  have hspelled {e f : PathEntry} {k : PathKey} (hf : Table.find? right k = some f) :
      (e.spelledAs f).keys.Nodup := ((hr.values k f hf).renamed e).nodup_keys
  simp only [Partial.overrides, List.mem_flatMap]
  constructor
  · rintro ⟨⟨k, f⟩, hf, hevent⟩
    replace hf := Table.find?_of_mem hr.nodup_keys hf
    cases he : Table.find? left k with
    | none => simp [he] at hevent
    | some e =>
        simp only [he, PathEntry.overrides, List.mem_flatMap] at hevent
        obtain ⟨⟨m, b⟩, hb, hevent⟩ := hevent
        cases ha : e.operations.find? m with
        | none => simp [ha] at hevent
        | some a =>
            simp only [ha] at hevent
            have hb := Table.find?_of_mem (hspelled hf) hb
            exact ⟨k, m, e.title m, a, b, ⟨e, f, he, hf, rfl, ha, hb⟩, hevent⟩
  · rintro ⟨k, m, title, a, b, ⟨e, f, he, hf, rfl, ha, hb⟩, hevent⟩
    refine ⟨(k, f), Table.mem_of_find? hf, ?_⟩
    simp only [he, PathEntry.overrides, List.mem_flatMap]
    exact ⟨(m, b), Table.mem_of_find? hb, by simpa only [ha] using hevent⟩

/-- The operations of an entry are proper. -/
theorem PathEntry.Unites.proper {e : PathEntry} {zs : List Leaf} (he : e.Unites zs)
    (hproper : ∀ z ∈ zs, z.operation.Proper) {m : Method} {op : Operation}
    (hop : e.operations.find? m = some op) : op.Proper := by
  rw [he.values m op hop]
  refine Operation.proper_unitedAll (by simpa using he.group_ne_nil hop) fun op' hop' => ?_
  obtain ⟨z, hz, rfl⟩ := List.mem_map.1 hop'
  exact hproper z (List.mem_of_mem_filter hz)

/-- Except for a path that is not found, a new spelling leaves responses as they are. -/
theorem find?_responses_renameCaptures_of_ne (renames : Table String String) (op : Operation)
    {status : String} (h : status ≠ "404") :
    (renameCaptures renames op).responses.find? status = op.responses.find? status := by
  have hid : Response.renamed renames status = id := funext fun r => if_neg h
  rw [Operation.find?_responses_renameCaptures, hid, Option.map_id, id]

/-- A merge tells that a response is replaced just if its two sides have different ones. -/
theorem Partial.Unites.meets_iff (left : Partial) {right : Partial} {zs : List Leaf}
    (hr : right.Unites zs) (hzs : ∀ l ∈ zs, l.operation.Proper) (k : PathKey) (m : Method)
    {status : String} (hstatus : status ≠ "404") :
    (∃ title a b old new, left.Meets right k m title a b ∧
      Event.responseOverride title status old new ∈ ApiTree.overrides title a b) ↔
    ∃ x y, left.responseAt k m status = some x ∧ right.responseAt k m status = some y ∧
      x.same y = false := by
  have hspelled (e f : PathEntry) : (e.spelledAs f).find? m =
      (f.operations.find? m).map (renameCaptures (renamesOf e.captures f.captures)) := by
    rw [PathEntry.spelledAs_eq, Table.find?_mapValues]
  have hproper {f : PathEntry} {op : Operation} (renames : Table String String)
      (hf : Table.find? right k = some f) (hop : f.operations.find? m = some op) :
      (renameCaptures renames op).Proper :=
    Operation.proper_renameCaptures renames <| (hr.values k f hf).proper
      (fun l hl => hzs l (List.mem_of_mem_filter hl)) hop
  simp only [Partial.responseAt, Partial.operationAt, Option.bind_eq_some_iff]
  constructor
  · rintro ⟨title, a, b, old, new, ⟨e, f, he, hf, rfl, ha, hb⟩, hevent⟩
    rw [hspelled] at hb
    obtain ⟨op, hop, rfl⟩ := Option.map_eq_some_iff.1 hb
    obtain ⟨status', x, y, hx, hy, hsame, heq⟩ :=
      (ApiTree.mem_overrides_iff (hproper _ hf hop).responses).1 hevent
    obtain ⟨-, rfl, -⟩ := Event.responseOverride.inj heq
    rw [find?_responses_renameCaptures_of_ne _ _ hstatus] at hy
    exact ⟨x, y, ⟨a, ⟨e, he, ha⟩, hx⟩, ⟨op, ⟨f, hf, hop⟩, hy⟩, hsame⟩
  · rintro ⟨x, y, ⟨a, ⟨e, he, ha⟩, hx⟩, ⟨op, ⟨f, hf, hop⟩, hy⟩, hsame⟩
    rw [← find?_responses_renameCaptures_of_ne (renamesOf e.captures f.captures) _ hstatus] at hy
    have hb := (hspelled e f).trans (congrArg _ hop)
    exact ⟨e.title m, a, _, x.description, y.description, ⟨e, f, he, hf, rfl, ha, hb⟩,
      (ApiTree.mem_overrides_iff (hproper _ hf hop).responses).2 ⟨status, x, y, hx, hy, hsame, rfl⟩⟩

namespace Tree

section Merges

variable {c : Catalog} {k : PathKey} {m : Method} {title : String} {a b : Operation}
  {above : List Qualifier} {s s₁ s' : Collected} {l r t : Tree} {x y : Partial × List Event}

/-- Below a qualifier the same operations merge. -/
theorem merges_seq_iff {q : Qualifier} :
    (seq q t).Merges c k m title a b above s ↔ t.Merges c k m title a b (above ++ [q]) s :=
  ⟨fun | .under h => h, .under⟩

/-- Operations merge in a choice if they do on one side, or one side meets the other. -/
theorem merges_alt_iff (hl : (l.fold c above).run s = .ok (x, s₁))
    (hr : (r.fold c above).run s₁ = .ok (y, s')) :
    (alt l r).Merges c k m title a b above s ↔ (l.Merges c k m title a b above s ∨
      r.Merges c k m title a b above s₁) ∨ x.1.Meets y.1 k m title a b := by
  constructor
  · rintro (_ | h | ⟨hl', h⟩ | ⟨hl', hr', h⟩)
    · exact .inl (.inl h)
    · obtain ⟨-, rfl⟩ := Prod.mk.inj (Except.ok.inj (hl.symm.trans hl'))
      exact .inl (.inr h)
    · obtain ⟨rfl, rfl⟩ := Prod.mk.inj (Except.ok.inj (hl.symm.trans hl'))
      obtain ⟨rfl, -⟩ := Prod.mk.inj (Except.ok.inj (hr.symm.trans hr'))
      exact .inr h
  · rintro ((h | h) | h)
    · exact .left h
    · exact .right hl h
    · exact .here hl hr h

/-- A response is replaced in a choice if it is on one side, or one side replaces the other's. -/
theorem replaces_alt_iff {status : String} (hl : (l.fold c above).run s = .ok (x, s₁))
    (hr : (r.fold c above).run s₁ = .ok (y, s')) :
    (alt l r).Replaces c above s k m status ↔
      (l.Replaces c above s k m status ∨ r.Replaces c above s₁ k m status) ∨
      ∃ title a b old new, x.1.Meets y.1 k m title a b ∧
        Event.responseOverride title status old new ∈ overrides title a b := by
  simp only [Replaces, merges_alt_iff hl hr, or_and_right, exists_or]

end Merges

variable {c : Catalog} {above : List Qualifier} {t : Tree} {s s' : Collected}

/-- What is told while a tree is folded is what its merges tell. -/
theorem mem_events_iff {p : Partial} {events : List Event}
    (h : (t.fold c above).run s = .ok ((p, events), s')) (event : Event) : event ∈ events ↔
      ∃ k m title a b, t.Merges c k m title a b above s ∧ event ∈ overrides title a b := by
  induction t generalizing above s p events s' with
  | leaf e =>
      obtain ⟨p, _, -, h⟩ := run_bind_ok.1 h
      obtain ⟨heq, -⟩ := run_pure_ok.1 h
      obtain ⟨-, rfl⟩ := Prod.mk.inj heq
      refine iff_of_false List.not_mem_nil ?_
      rintro ⟨k, m, title, a, b, hmerges, -⟩
      cases hmerges
  | seq q t ih => simpa only [merges_seq_iff] using ih h
  | alt l r ihl ihr =>
      obtain ⟨left, right, before, after, s₁, hl, hr, hm⟩ := fold_alt_ok h
      obtain ⟨heq, -⟩ := Prod.mk.inj (Except.ok.inj (h.symm.trans (fold_alt_of_merged hl hr hm)))
      obtain ⟨-, rfl⟩ := Prod.mk.inj heq
      obtain ⟨rs, ys, -, -, hunites⟩ := fold_unites hr
      simp only [List.mem_append, ihl hl, ihr hr, Partial.mem_overrides_iff hunites,
        merges_alt_iff hl hr, or_and_right, exists_or]
  | empty =>
      obtain ⟨heq, -⟩ := run_pure_ok.1 h
      obtain ⟨-, rfl⟩ := Prod.mk.inj heq
      refine iff_of_false List.not_mem_nil ?_
      rintro ⟨k, m, title, a, b, hmerges, -⟩
      cases hmerges
  | alien a => simp only [fold, run_throw, reduceCtorEq] at h

/-- Except for a path that is not found, what a tree folds to has the last response of its leaves
for a status. -/
theorem responseAt_of_fold {p : Partial} {events : List Event} {rs : List Route} {ls : List Leaf}
    (hr : t.routes above = .ok rs) (hl : (leaves c rs).run s = .ok (ls, s'))
    (h : (t.fold c above).run s = .ok ((p, events), s')) (k : PathKey) (m : Method)
    {status : String} (hstatus : status ≠ "404") :
    p.responseAt k m status = (answersAt ls k m status).getLast? := by
  obtain ⟨rs', ls', hr', hl', hunites⟩ := fold_unites h
  obtain rfl := Except.ok.inj (hr.symm.trans hr')
  obtain ⟨rfl, -⟩ := Prod.mk.inj (Except.ok.inj (hl.symm.trans hl'))
  obtain ⟨hroutes, hwellFormed⟩ := wellFormed_of_leaves hl
  rw [hunites.getLast?_answersAt (proper_of_mem_arrivals hwellFormed),
    answersAt_arrivals hstatus ((map_route_passages hr).trans hroutes.symm)]

/-- Some merge of a path and method tells that a response is replaced just if two leaves have
responses that differ. -/
theorem replaces_iff {p : Partial} {events : List Event} {rs : List Route} {ls : List Leaf}
    (hr : t.routes above = .ok rs) (hl : (leaves c rs).run s = .ok (ls, s'))
    (h : (t.fold c above).run s = .ok ((p, events), s')) (k : PathKey) (m : Method)
    {status : String} (hstatus : status ≠ "404") : t.Replaces c above s k m status ↔
      ¬ (answersAt ls k m status).Pairwise fun x y => x.same y = true := by
  induction t generalizing above s p events s' rs ls with
  | leaf e =>
      obtain rfl := Except.ok.inj hr
      obtain ⟨l, -, rfl⟩ := leaves_singleton_ok.1 hl
      refine iff_of_false ?_ ?_
      · rintro ⟨title, a, b, old, new, hmerges, -⟩
        cases hmerges
      · rw [not_not, answersAt_cons]
        split <;> simp [answersAt]
  | seq q t ih => simpa only [Replaces, merges_seq_iff] using ih hr hl h
  | alt l r ihl ihr =>
      obtain ⟨left, right, before, after, s₁, hfl, hfr, hm⟩ := fold_alt_ok h
      obtain ⟨rs₁, xs, hr₁, hxs, -⟩ := fold_unites hfl
      obtain ⟨rs₂, ys, hr₂, hys, hunites⟩ := fold_unites hfr
      obtain ⟨rs₁', rs₂', hr₁', hr₂', rfl⟩ := routes_alt_ok hr
      obtain rfl := Except.ok.inj (hr₁.symm.trans hr₁')
      obtain rfl := Except.ok.inj (hr₂.symm.trans hr₂')
      have hleaves := leaves_append_ok.2 ⟨xs, ys, s₁, hxs, hys, rfl⟩
      obtain ⟨rfl, -⟩ := Prod.mk.inj (Except.ok.inj (hl.symm.trans hleaves))
      have hmeets := hunites.meets_iff left (proper_of_mem_arrivals (wellFormed_of_leaves hys).2)
        k m hstatus
      rw [responseAt_of_fold hr₁ hxs hfl k m hstatus,
        responseAt_of_fold hr₂ hys hfr k m hstatus] at hmeets
      -- equality of the responses here can be turned round and put together
      have htidy := tidy_of_mem_answersAt hl k m status
      rw [answersAt_append] at htidy
      have hpairwise := pairwise_append_iff_getLast?
        (fun x hx y hy => Response.same_symm (htidy x (List.mem_append_right _ hx))
          (htidy y (List.mem_append_right _ hy)))
        fun x hx y hy z hz => Response.same_trans (htidy x hx) (htidy y hy) (htidy z hz)
      rw [replaces_alt_iff hfl hfr, ihl hr₁ hxs hfl, ihr hr₂ hys hfr, hmeets, answersAt_append,
        hpairwise, not_and_or, not_and_or, or_assoc]
      simp only [not_forall, Bool.not_eq_true, exists_prop]
  | empty =>
      obtain rfl := Except.ok.inj hr
      obtain ⟨rfl, -⟩ := leaves_nil_ok.1 hl
      refine iff_of_false ?_ ?_
      · rintro ⟨title, a, b, old, new, hmerges, -⟩
        cases hmerges
      · rw [not_not]
        exact .nil
  | alien a => simp only [fold, run_throw, reduceCtorEq] at h

end Tree

/-! ## a whole tree -/

/-- What is told when a tree compiles, beside the summary at the end, is what merges of its parts
tell.  For a status other than that of a path that is not found, some merge of a path and method
tells that a response is replaced just if two routes there have responses that are not equal by
value.  So it is told of none if they are all the same; and it is told of two that differ, unless a
boolean in one faces a number in the other. -/
theorem compile_overrides (c : Catalog) (t : Tree) (info : Info) (servers : List Server)
    (compiled : Compiled) (h : compile c t info servers = .ok compiled) :
    ∃ p ls s, t.Folds c p ls s ∧ compiled.document.paths = p.paths ∧
      (∀ event, event ∈ compiled.events ↔
        event = .apiCompiled p.paths.length p.operationCount s.registry.schemas.length ∨
        ∃ k m title a b, t.Merges c k m title a b [] {} ∧ event ∈ overrides title a b) ∧
      ∀ k m status, status ≠ "404" →
        (t.Replaces c [] {} k m status ↔
          ∃ x y, Rivals ls k m status x y ∧ x.same y = false) ∧
        (t.Replaces c [] {} k m status → ∃ x y, Rivals ls k m status x y ∧ ¬ x.SameValue y) ∧
        ∀ x y, Rivals ls k m status x y → ¬ x.SameValue y → ¬ x.Conflated y →
          t.Replaces c [] {} k m status := by
  obtain ⟨⟨⟨p, events⟩, s⟩, hfold, h⟩ := bind_eq_ok_iff.1 h
  obtain rfl := pure_eq_ok_iff.1 h
  obtain ⟨rs, ls, hrs, hls, -⟩ := Tree.fold_summarizes hfold
  obtain ⟨rfl, -⟩ := wellFormed_of_leaves hls
  refine ⟨p, ls, s, ⟨⟨events, hfold⟩, hrs, hls⟩, rfl, fun event => ?_, fun k m status hs => ?_⟩
  · rw [← Tree.mem_events_iff hfold event, List.mem_append, List.mem_singleton, or_comm]
  have hiff : t.Replaces c [] {} k m status ↔
      ∃ x y, Rivals ls k m status x y ∧ x.same y = false := by
    rw [Tree.replaces_iff hrs hls hfold k m hs, not_pairwise_answersAt_iff]
    simp only [Bool.not_eq_true]
  have hsame {x y : Response} (hxy : Rivals ls k m status x y) :
      x.SameValue y ↔ x.same y = true ∧ ¬ x.Conflated y := by
    obtain ⟨i, j, l, r, -, hl, hr, hx, hy⟩ := hxy
    exact Response.sameValue_iff (tidy_of_leaves hls l (List.mem_of_getElem? hl.here) _ x hx)
      (tidy_of_leaves hls r (List.mem_of_getElem? hr.here) _ y hy)
  refine ⟨hiff, fun h => ?_, fun x y hxy hdiffer hconflated => ?_⟩
  · obtain ⟨x, y, hxy, hfalse⟩ := hiff.1 h
    refine ⟨x, y, hxy, fun hvalue => ?_⟩
    rw [((hsame hxy).1 hvalue).1] at hfalse
    cases hfalse
  · refine hiff.2 ⟨x, y, hxy, Bool.eq_false_iff.2 fun hequal => ?_⟩
    exact hdiffer ((hsame hxy).2 ⟨hequal, hconflated⟩)

/-- A route that gives one of two values. -/
def gives (v : Json) : Route := ⟨[], { method := .get, returns := .literal [v, .str "a"] }⟩

/-- Two routes of one path and method, that give different values. -/
def givesEither (v w : Json) : Tree := .alt (.leaf (gives v).endpoint) (.leaf (gives w).endpoint)

/-- The schema of what it gives. -/
def givenSchema (v : Json) : Schema := [("enum", .arr [v, .str "a"])]

/-- The response of the route. -/
def givenResponse (v : Json) : Response where
  description := ""
  content := [("application/json;charset=utf-8", { schema := some (givenSchema v) })]

/-- The route with its operation. -/
def givesLeaf (v : Json) : Leaf where
  route := gives v
  operation := { responses := [("200", givenResponse v)] }

/-- A response with one number is replaced by a response with another number, and it is told. -/
theorem givesEither_replaced : ∃ p ls s, (givesEither (.int 1) (.int 2)).Folds [] p ls s ∧
    Rivals ls [] .get "200" (givenResponse (.int 1)) (givenResponse (.int 2)) ∧
    (givesEither (.int 1) (.int 2)).Replaces [] [] {} [] .get "200" := by
  have hok : (compile [] (givesEither (.int 1) (.int 2)) {} []).toOption.isSome = true := by
    decide +kernel
  obtain ⟨compiled, hcompiled⟩ := isSome_toOption_iff.1 hok
  obtain ⟨p, ls, s, hfolds, -, -, hreplaces⟩ :=
    compile_overrides [] (givesEither (.int 1) (.int 2)) {} [] compiled hcompiled
  have hroutes : ls.map Leaf.route = [gives (.int 1), gives (.int 2)] :=
    (Except.ok.inj hfolds.flatten).symm
  have hleaves : ((leaves [] [gives (.int 1), gives (.int 2)]).run {}).map Prod.fst = .ok ls := by
    rw [← hroutes, hfolds.leaves]
    rfl
  have hrivals : Rivals ls [] .get "200" (givenResponse (.int 1)) (givenResponse (.int 2)) := by
    obtain rfl : [givesLeaf (.int 1), givesLeaf (.int 2)] = ls := Except.ok.inj hleaves
    exact ⟨0, 1, _, _, by decide, ⟨rfl, rfl, rfl⟩, ⟨rfl, rfl, rfl⟩, rfl, rfl⟩
  obtain ⟨hiff, -, -⟩ := hreplaces [] .get "200" (by decide)
  exact ⟨p, ls, s, hfolds, hrivals, hiff.2 ⟨_, _, hrivals, by decide +kernel⟩⟩

/-- A response with the number one is replaced by a different response, with true, and nothing is
told. -/
theorem givesEither_silent :
    ((leaves [] [gives (.int 1), gives (.bool true)]).run {}).map Prod.fst =
      .ok [givesLeaf (.int 1), givesLeaf (.bool true)] ∧
    (compile [] (givesEither (.int 1) (.bool true)) {} []).toOption.map (·.events) =
      some [.apiCompiled 1 1 0] ∧
    ((compile [] (givesEither (.int 1) (.bool true)) {} []).toOption.bind fun d =>
        (operationIn d.document.paths "/" .get).bind fun op =>
          (op.responses.find? "200").map fun r => r.content.map (·.2.schema)) =
      some [some (givenSchema (.bool true))] ∧
    ¬ (givenResponse (.int 1)).SameValue (givenResponse (.bool true)) := by
  refine ⟨rfl, by decide +kernel, by decide +kernel, fun hsame => ?_⟩
  have hschema : Schema.SameValue (some (givenSchema (.int 1))) (some (givenSchema (.bool true))) :=
    hsame.content "application/json;charset=utf-8" _ _ rfl rfl
  obtain ⟨-, hconflated⟩ := (Schema.sameValue_iff _ _).1 hschema
  refine hconflated ⟨_, _, rfl, rfl, .int 1, .bool true, ?_, by decide, by decide⟩
  exact .member (k := "enum") rfl rfl (.item (i := 0) rfl rfl (.here _ _))

end ApiTree
