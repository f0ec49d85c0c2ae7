import ApiTree.Proofs.Compilation.Captures
import ApiTree.Proofs.Merge.Renaming

/-!
# ApiTree.Proofs.Compilation.Passage

What a tree folds to, to the letter.  `Partial.Summarizes` leaves the text of one response
out; here every leaf is followed on its way to the root (`Passage`).  At an alternative that
has the leaf on its right side, the names of its captures give way to those of the left side,
wherever they are coded.

* `Tree.fold_unites` — an operation of what a tree folds to is made of the leaves of its path
  and method, each as it arrives at the root;
* `Partial.Unites.find?_responses` — so it has, for each status, the response of the last of
  them that has one.
-/

namespace ApiTree
open Compiling

/-! ## the last element of a kind -/

section Last

variable {α β : Type} {f : α → Option β} {xs : List α}

/-- The first outcome for what passes a test is the first outcome under the test. -/
theorem findSome?_filter (p : α → Bool) (f : α → Option β) (xs : List α) :
    (xs.filter p).findSome? f = xs.findSome? fun x => if p x then f x else none := by
  induction xs with
  | nil => rfl
  | cons x xs ih => by_cases hp : p x <;> simp [List.findSome?_cons, hp, ih]

/-- What the last element with a value has is found from the end. -/
theorem findSome?_reverse_of_last {i : Nat} {x : α} {b : β} (hi : xs[i]? = some x)
    (hx : f x = some b) (hlast : ∀ (j : Nat) y, i < j → xs[j]? = some y → f y = none) :
    xs.reverse.findSome? f = some b := by
  obtain ⟨hlt, rfl⟩ := List.getElem?_eq_some_iff.1 hi
  have hafter : (xs.drop (i + 1)).reverse.findSome? f = none := by
    refine List.findSome?_eq_none_iff.2 fun y hy => ?_
    obtain ⟨j, hj⟩ := List.mem_iff_getElem?.1 (List.mem_reverse.1 hy)
    rw [List.getElem?_drop] at hj
    exact hlast (i + 1 + j) y (by omega) hj
  have hsplit : xs = xs.take i ++ xs[i] :: xs.drop (i + 1) := by simp
  rw [hsplit, List.reverse_append, List.reverse_cons, List.findSome?_append,
    List.findSome?_append, hafter]
  simp [hx]

/-- If an element has a value, there is a last one that has. -/
theorem exists_last (h : ∃ x ∈ xs, (f x).isSome) :
    ∃ (i : Nat) (x : α), xs[i]? = some x ∧ (f x).isSome ∧
      ∀ (j : Nat) y, i < j → xs[j]? = some y → f y = none := by
  induction xs using List.reverseRecOn with
  | nil => simp at h
  | append_singleton xs x ih =>
      by_cases hx : (f x).isSome
      · refine ⟨xs.length, x, by simp, hx, fun j y hj hy => ?_⟩
        have hlt := (List.getElem?_eq_some_iff.1 hy).1
        rw [List.length_append, List.length_singleton] at hlt
        omega
      · obtain ⟨y, hy, hsome⟩ := h
        have hmem : y ∈ xs := by
          rcases List.mem_append.1 hy with hy | hy
          · exact hy
          · exact absurd (List.mem_singleton.1 hy ▸ hsome) hx
        obtain ⟨i, z, hi, hz, hlast⟩ := ih ⟨y, hmem, hsome⟩
        have hlen := (List.getElem?_eq_some_iff.1 hi).1
        refine ⟨i, z, by rw [List.getElem?_append_left hlen, hi], hz, fun j w hj hw => ?_⟩
        by_cases hjx : j < xs.length
        · rw [List.getElem?_append_left hjx] at hw
          exact hlast j w hj hw
        · rw [List.getElem?_append_right (by omega)] at hw
          obtain rfl := List.mem_singleton.1 (List.mem_of_getElem? hw)
          simpa using hx

end Last

/-! ## the way of a leaf -/

/-- The way of a route to the root of a tree: the tables by which its names are replaced,
in order. -/
structure Passage where
  route : Route
  renames : List (Table String String)

namespace Passage

/-- The way goes on to where names are replaced once more. -/
def through (x : Passage) (renames : Table String String) : Passage :=
  { x with renames := x.renames ++ [renames] }

/-- What becomes of a text in which names are coded. -/
def text (x : Passage) (s : String) : String := x.renames.foldl (fun s t => renameText t s) s

/-- What becomes of the response for a status. -/
def response (x : Passage) (status : String) (r : Response) : Response :=
  if status = "404" then { r with description := x.text r.description } else r

/-- What becomes of an operation. -/
def operation (x : Passage) (op : Operation) : Operation :=
  x.renames.foldl (fun op t => renameCaptures t op) op

/-- What becomes of a leaf. -/
def arrival (x : Passage) (l : Leaf) : Leaf := ⟨x.route, x.operation l.operation⟩

/-- One more renaming renames the captures of the operation once more. -/
theorem operation_through (x : Passage) (t : Table String String) (op : Operation) :
    (x.through t).operation op = renameCaptures t (x.operation op) := by
  simp [through, operation, List.foldl_append]

/-- One more renaming renames the text of the response once more. -/
theorem response_through (x : Passage) (t : Table String String) (status : String)
    (r : Response) : (x.through t).response status r = (x.response status r).renamed t status := by
  by_cases hs : status = "404" <;> simp [response, Response.renamed, through, text, hs]

/-- The responses of an operation that passes are those of the operation, as they pass. -/
theorem find?_responses_operation (x : Passage) (op : Operation) (status : String) :
    (x.operation op).responses.find? status =
      (op.responses.find? status).map (x.response status) := by
  obtain ⟨route, renames⟩ := x
  induction renames using List.reverseRecOn with
  | nil => cases h : op.responses.find? status <;> simp [operation, response, text, h]
  | append_singleton ts t ih =>
      change (((Passage.mk route ts).through t).operation op).responses.find? status = _
      rw [operation_through, Operation.find?_responses_renameCaptures, ih, Option.map_map]
      exact congrArg (Option.map · _) (funext fun r => (response_through _ t status r).symm)

/-- An operation that passes is proper if it was. -/
theorem proper_operation {op : Operation} (x : Passage) (h : op.Proper) :
    (x.operation op).Proper := by
  obtain ⟨route, renames⟩ := x
  induction renames using List.reverseRecOn with
  | nil => exact h
  | append_singleton ts t ih =>
      change (((Passage.mk route ts).through t).operation op).Proper
      rw [operation_through]
      exact Operation.proper_renameCaptures t ih

@[simp] theorem content_response (x : Passage) (status : String) (r : Response) :
    (x.response status r).content = r.content := by
  rw [response]
  split <;> rfl

@[simp] theorem headers_response (x : Passage) (status : String) (r : Response) :
    (x.response status r).headers = r.headers := by
  rw [response]
  split <;> rfl

/-- Of the texts of responses only that for 404 changes on the way. -/
theorem description_response (x : Passage) (status : String) (r : Response) :
    (x.response status r).description =
      if status = "404" then x.text r.description else r.description := by
  rw [response]
  split <;> rfl

/-- A text stays as it is where no name is replaced that is coded in it. -/
theorem text_eq_self {x : Passage} {s : String}
    (h : ∀ t ∈ x.renames, ∀ n ∈ codedNames s, t.find? n = none) : x.text s = s := by
  obtain ⟨route, renames⟩ := x
  induction renames with
  | nil => rfl
  | cons t ts ih =>
      obtain ⟨ht, hts⟩ := List.forall_mem_cons.1 h
      rw [text, List.foldl_cons, renameText_eq_self ht]
      exact ih hts

end Passage

/-- The ways of the routes of a tree, in order. -/
def Tree.passages (above : List Qualifier) : Tree → List Passage
  | .leaf e => [⟨⟨above, e⟩, []⟩]
  | .seq q t => passages (above ++ [q]) t
  | .alt l r =>
    let left := passages above l
    let right := passages above r
    left ++ right.map fun x => x.through <|
      renamesOf (namesAt (left.map (·.route)) x.route.key)
        (namesAt (right.map (·.route)) x.route.key)
  | .empty | .alien _ => []

/-- Leaves after their ways. -/
def arrivals (xs : List Passage) (ls : List Leaf) : List Leaf := List.zipWith Passage.arrival xs ls

/-- The passages of a tree are those of its routes. -/
theorem Tree.map_route_passages {above : List Qualifier} {t : Tree} {rs : List Route}
    (h : t.routes above = .ok rs) : (t.passages above).map (·.route) = rs := by
  induction t generalizing above rs with
  | leaf e =>
      obtain rfl := Except.ok.inj h
      rfl
  | seq q t ih => exact ih h
  | alt l r ihl ihr =>
      obtain ⟨ls, rs, hl, hr, rfl⟩ := routes_alt_ok h
      rw [passages, List.map_append, List.map_map, ihl hl, ← ihr hr]
      rfl
  | empty =>
      obtain rfl := Except.ok.inj h
      rfl
  | alien a => simp [routes] at h

/-! ## what leaves make together -/

/-- A leaf with the names of its captures replaced. -/
def Leaf.renamed (renames : Table String String) (l : Leaf) : Leaf :=
  { l with operation := renameCaptures renames l.operation }

/-- An entry has, for each method of some leaves, what the leaves of that method make. -/
def PathEntry.Unites (e : PathEntry) (ls : List Leaf) : Prop :=
  Table.Groups Leaf.method (fun op ls => op = Operation.unitedAll (ls.map (·.operation)))
    e.operations ls

/-- A partial document has, for each path of some leaves, an entry that unites the leaves there. -/
def Partial.Unites (p : Partial) (ls : List Leaf) : Prop :=
  Table.Groups Leaf.key PathEntry.Unites p ls

namespace PathEntry.Unites

variable {e f g : PathEntry} {xs ys : List Leaf}

/-- An entry that takes over names stands for its leaves with the names changed. -/
theorem renamed (hf : f.Unites ys) (e : PathEntry) :
    Table.Groups Leaf.method (fun op ls => op = Operation.unitedAll (ls.map (·.operation)))
      (e.spelledAs f) (ys.map (Leaf.renamed (renamesOf e.captures f.captures))) := by
  rw [spelledAs_eq]
  refine Table.Groups.map (hf.mapValues (F := fun op ls => op = Operation.unitedAll
    (ls.map fun l => renameCaptures (renamesOf e.captures f.captures) l.operation))
    fun m op _ hop => ?_) (fun _ => rfl) fun m op _ hop => ?_
  · rw [hop, Operation.renameCaptures_unitedAll, List.map_map]
    rfl
  · rw [hop, List.map_map]
    rfl

/-- An entry that is merged into another one has its leaves spelled as there. -/
theorem merge (he : e.Unites xs) (hf : f.Unites ys) (hx : ∀ l ∈ xs, l.operation.Proper)
    (hy : ∀ l ∈ ys, l.operation.Proper) (h : e.merge f = .ok g) :
    g.Unites (xs ++ ys.map (Leaf.renamed (renamesOf e.captures f.captures))) := by
  have hspelled := hf.renamed e
  have hproper : ∀ {zs : List Leaf}, (∀ l ∈ zs, l.operation.Proper) → ∀ m,
      ∀ op ∈ (zs.filter (·.method = m)).map (·.operation), op.Proper := by
    intro zs hzs m op hop
    obtain ⟨l, hl, rfl⟩ := List.mem_map.1 hop
    exact hzs l (List.mem_of_mem_filter hl)
  have hy' : ∀ l ∈ ys.map (Leaf.renamed (renamesOf e.captures f.captures)), l.operation.Proper := by
    intro l' hl'
    obtain ⟨l, hl, rfl⟩ := List.mem_map.1 hl'
    exact Operation.proper_renameCaptures _ (hy l hl)
  obtain ⟨operations, hmerge, rfl⟩ := pathEntry_merge_ok h
  refine Table.Groups.mergeM he hspelled hmerge fun m a b z ha hb hz => ?_
  have hxne := he.group_ne_nil ha
  have hyne := hspelled.group_ne_nil hb
  have ha' := he.values m a ha
  have hb' := hspelled.values m b hb
  have hbproper : b.Proper := by
    rw [hb']
    exact Operation.proper_unitedAll (by simpa using hyne) (hproper hy' m)
  rw [Operation.eq_united_of_mergeOperations hbproper hz, ha', hb', List.map_append,
    Operation.unitedAll_append (by simpa using hxne) (by simpa using hyne) (hproper hx m)
      (hproper hy' m)]

end PathEntry.Unites

namespace Partial.Unites

variable {p q r : Partial} {xs ys : List Leaf}

/-- A partial document that is merged into another one has its leaves spelled as there. -/
theorem merge (hp : p.Unites xs) (hq : q.Unites ys) (hx : ∀ l ∈ xs, l.operation.Proper)
    (hy : ∀ l ∈ ys, l.operation.Proper) (h : p.merge q = .ok r) :
    r.Unites (xs ++ ys.map fun l => l.renamed (renamesOf (p.names l.key) (q.names l.key))) := by
  have hgroup : ∀ k,
      (ys.map fun l => l.renamed (renamesOf (p.names l.key) (q.names l.key))).filter (·.key = k) =
        (ys.filter (·.key = k)).map (Leaf.renamed (renamesOf (p.names k) (q.names k))) := by
    intro k
    rw [List.filter_map]
    refine List.map_congr_left fun l hl => ?_
    have hk : l.key = k := (mem_group_iff.1 hl).2
    rw [hk]
  refine Table.Groups.mergeM_of hp (hq.map (F := fun _ _ => True) (fun _ => rfl)
    fun _ _ _ _ => trivial) h (fun k v hv _ => hp.values k v hv) (fun k w hv hw => ?_)
    fun k v w z hv hw hz => ?_
  · have hnone : p.names k = [] := by rw [names, hv]; rfl
    have hsame : ∀ l : Leaf, l.renamed (renamesOf [] (q.names k)) = l := by
      intro l
      rw [show renamesOf [] (q.names k) = [] from rfl, Leaf.renamed, Operation.renameCaptures_nil]
    rw [hgroup, hnone, List.map_congr_left fun l _ => hsame l, List.map_id']
    exact hq.values k w hw
  · have hleft : p.names k = v.captures := by rw [names, hv]; rfl
    have hright : q.names k = w.captures := by rw [names, hw]; rfl
    rw [hgroup, hleft, hright]
    exact (hp.values k v hv).merge (hq.values k w hw) (fun l hl => hx l (List.mem_of_mem_filter hl))
      (fun l hl => hy l (List.mem_of_mem_filter hl)) hz

end Partial.Unites

/-! ## folding a tree -/

/-- A route that is compiled stands for its leaf. -/
theorem materialize_unites {c : Catalog} {r : Route} {p : Partial} {s s' : Collected}
    (h : (materialize c r).run s = .ok (p, s')) :
    ∃ op, (leaf c r).run s = .ok (⟨r, op⟩, s') ∧ p.Unites [⟨r, op⟩] := by
  obtain ⟨op, t, hop, h⟩ := run_bind_ok.1 h
  obtain ⟨rfl, rfl⟩ := run_pure_ok.1 h
  let l : Leaf := ⟨r, op⟩
  exact ⟨op, run_bind_ok.2 ⟨op, t, hop, run_pure_ok.2 ⟨rfl, rfl⟩⟩,
    Table.Groups.singleton (x := l) (Table.Groups.singleton (x := l) rfl)⟩

/-- What arrives is proper. -/
theorem proper_of_mem_arrivals {xs : List Passage} {ls : List Leaf} (h : ∀ l ∈ ls, l.WellFormed) :
    ∀ l ∈ arrivals xs ls, l.operation.Proper := by
  intro l' hl'
  obtain ⟨i, hi⟩ := List.mem_iff_getElem?.1 hl'
  obtain ⟨x, l, -, hl, rfl⟩ := List.getElem?_zipWith_eq_some.1 hi
  exact x.proper_operation (h l (List.mem_of_getElem? hl)).proper

theorem length_passages {c : Catalog} {above : List Qualifier} {t : Tree} {rs : List Route}
    {ls : List Leaf} {s s' : Collected} (hr : t.routes above = .ok rs)
    (hl : (leaves c rs).run s = .ok (ls, s')) : (t.passages above).length = ls.length := by
  have hroutes := (Tree.map_route_passages hr).trans (wellFormed_of_leaves hl).1.symm
  simpa using congrArg List.length hroutes

/-- A fold stands for what arrives of its leaves. -/
theorem Tree.fold_unites {c : Catalog} {above : List Qualifier} {t : Tree} {p : Partial}
    {events : List Event} {s s' : Collected}
    (h : (t.fold c above).run s = .ok ((p, events), s')) :
    ∃ rs ls, t.routes above = .ok rs ∧ (leaves c rs).run s = .ok (ls, s') ∧
      p.Unites (arrivals (t.passages above) ls) := by
  induction t generalizing above s p events s' with
  | leaf e =>
      obtain ⟨p, _, hp, h⟩ := run_bind_ok.1 h
      obtain ⟨heq, rfl⟩ := run_pure_ok.1 h
      obtain ⟨rfl, -⟩ := Prod.mk.inj heq
      obtain ⟨op, hl, hunites⟩ := materialize_unites hp
      exact ⟨[⟨above, e⟩], [⟨⟨above, e⟩, op⟩], rfl, leaves_singleton_ok.2 ⟨_, hl, rfl⟩, hunites⟩
  | seq q t ih => exact ih h
  | alt l r ihl ihr =>
      obtain ⟨left, right, _, _, s₁, hl, hr, hm⟩ := fold_alt_ok h
      obtain ⟨ls, xs, hls, hxs, hux⟩ := ihl hl
      obtain ⟨rs, ys, hrs, hys, huy⟩ := ihr hr
      obtain ⟨hxroutes, hxwf⟩ := wellFormed_of_leaves hxs
      obtain ⟨hyroutes, hywf⟩ := wellFormed_of_leaves hys
      obtain ⟨-, hsx⟩ := summarizes_of_fold hls hxs hl
      obtain ⟨-, hsy⟩ := summarizes_of_fold hrs hys hr
      refine ⟨ls ++ rs, xs ++ ys, bind_eq_ok_iff.2 ⟨ls, hls, bind_eq_ok_iff.2 ⟨rs, hrs, rfl⟩⟩,
        leaves_append_ok.2 ⟨xs, ys, s₁, hxs, hys, rfl⟩, ?_⟩
      -- the tables of the two entries are those of the first routes on the two sides
      have hmerged := hux.merge huy (proper_of_mem_arrivals hxwf) (proper_of_mem_arrivals hywf) hm
      have hright : arrivals ((r.passages above).map fun x => x.through
          (renamesOf (namesAt ls x.route.key) (namesAt rs x.route.key))) ys =
          (arrivals (r.passages above) ys).map fun l =>
            l.renamed (renamesOf (left.names l.key) (right.names l.key)) := by
        rw [arrivals, arrivals, List.zipWith_map_left, List.map_zipWith]
        congr 1
        funext x l
        rw [hsx.names_eq, hsy.names_eq, hxroutes, hyroutes]
        simp only [Passage.arrival, Passage.operation_through, Leaf.renamed, Leaf.key]
        rfl
      rw [passages, map_route_passages hls, map_route_passages hrs, arrivals,
        List.zipWith_append (length_passages hls hxs)]
      rw [← hright] at hmerged
      exact hmerged
  | empty =>
      obtain ⟨heq, rfl⟩ := run_pure_ok.1 h
      obtain ⟨rfl, -⟩ := Prod.mk.inj heq
      exact ⟨[], [], rfl, leaves_nil_ok.2 ⟨rfl, rfl⟩, Table.Groups.nil⟩
  | alien a => simp only [fold, run_throw, reduceCtorEq] at h

/-! ## what a tree compiles to -/

namespace Tree.Folds

variable {c : Catalog} {t : Tree} {p : Partial} {ls : List Leaf} {s : Collected}

/-- A fold stands for what arrives of its leaves. -/
theorem unites (h : t.Folds c p ls s) : p.Unites (arrivals (t.passages []) ls) := by
  obtain ⟨events, hfold⟩ := h.fold
  obtain ⟨rs, ls', hrs, hls, hunites⟩ := fold_unites hfold
  obtain rfl := Except.ok.inj (h.flatten.symm.trans hrs)
  obtain ⟨rfl, -⟩ := Prod.mk.inj (Except.ok.inj (h.leaves.symm.trans hls))
  exact hunites

/-- The passages are those of the leaves' routes. -/
theorem map_route_passages (h : t.Folds c p ls s) :
    (t.passages []).map (·.route) = ls.map Leaf.route := Tree.map_route_passages h.flatten

/-- Every leaf has its way to the root. -/
theorem exists_passage (h : t.Folds c p ls s) {i : Nat} {l : Leaf} (hl : ls[i]? = some l) :
    ∃ x, (t.passages [])[i]? = some x ∧ x.route = l.route := by
  have hroute := congrArg (·[i]?) h.map_route_passages
  simp only [List.getElem?_map, hl, Option.map_some] at hroute
  exact Option.map_eq_some_iff.1 hroute

end Tree.Folds

/-! ## the response for a status -/

/-- An operation has, for each status, what the last leaf of its path and method has. -/
theorem Partial.Unites.find?_responses {p : Partial} {zs : List Leaf} (hp : p.Unites zs)
    (hproper : ∀ z ∈ zs, z.operation.Proper) {z : Leaf} (hz : z ∈ zs) :
    ∃ op, p.operationAt z.key z.method = some op ∧ ∀ status, op.responses.find? status =
      zs.reverse.findSome? fun y => if y.key = z.key ∧ y.method = z.method then
        y.operation.responses.find? status else none := by
  obtain ⟨e, he⟩ := hp.exists_find? hz
  have hgroup := hp.values _ e he
  obtain ⟨op, hop⟩ := hgroup.exists_find? (mem_group_iff.2 ⟨hz, rfl⟩)
  refine ⟨op, Option.bind_eq_some_iff.2 ⟨e, he, hop⟩, fun status => ?_⟩
  have hops : ∀ op ∈ ((zs.filter (·.key = z.key)).filter (·.method = z.method)).map (·.operation),
      op.Proper := by
    intro op hop
    obtain ⟨y, hy, rfl⟩ := List.mem_map.1 hop
    exact hproper y (List.mem_of_mem_filter (List.mem_of_mem_filter hy))
  rw [hgroup.values _ op hop, Operation.find?_responses_unitedAll hops, ← List.map_reverse,
    List.findSome?_map, ← List.filter_reverse, ← List.filter_reverse, findSome?_filter,
    findSome?_filter]
  congr 1
  funext y
  by_cases hk : y.key = z.key <;> by_cases hm : y.method = z.method <;> simp [hk, hm]

/-- The leaf at place `i` is `l`; it is one of a path and method. -/
structure Stands (ls : List Leaf) (k : PathKey) (m : Method) (i : Nat) (l : Leaf) : Prop where
  here : ls[i]? = some l
  key : l.key = k
  method : l.method = m

/-- It is the last one of the path and method that has a response for a status. -/
structure LastWith (ls : List Leaf) (k : PathKey) (m : Method) (status : String) (i : Nat)
    (l : Leaf) : Prop extends Stands ls k m i l where
  answers : (l.operation.responses.find? status).isSome
  last : ∀ j l', i < j → Stands ls k m j l' → l'.operation.responses.find? status = none

/-- Where a leaf answers with a status there is a last one that does. -/
theorem exists_lastWith {ls : List Leaf} {k : PathKey} {m : Method} {status : String}
    (h : ∃ i l, Stands ls k m i l ∧ (l.operation.responses.find? status).isSome) :
    ∃ i l, LastWith ls k m status i l := by
  let answer? (y : Leaf) : Option Response :=
    if y.key = k ∧ y.method = m then y.operation.responses.find? status else none
  have hsome : ∃ l ∈ ls, (answer? l).isSome := by
    obtain ⟨i, l, ⟨hl, rfl, rfl⟩, hsome⟩ := h
    exact ⟨l, List.mem_of_getElem? hl, by simpa [answer?] using hsome⟩
  obtain ⟨i, l, hi, hl, hlast⟩ := exists_last hsome
  simp only [answer?] at hl hlast
  split at hl
  · next hat =>
      refine ⟨i, l, ⟨hi, hat.1, hat.2⟩, hl, fun j y hj hy => ?_⟩
      simpa [hy.key, hy.method] using hlast j y hj hy.here
  · simp at hl

/-- There is one last leaf that answers with a status. -/
theorem LastWith.unique {ls : List Leaf} {k : PathKey} {m : Method} {status : String} {i j : Nat}
    {l l' : Leaf} (h : LastWith ls k m status i l) (h' : LastWith ls k m status j l') :
    i = j ∧ l = l' := by
  rcases Nat.lt_trichotomy i j with hij | rfl | hij
  · have hnone := h.last j l' hij h'.toStands
    simpa [hnone] using h'.answers
  · exact ⟨rfl, Option.some.inj (h.here.symm.trans h'.here)⟩
  · have hnone := h'.last i l hij h.toStands
    simpa [hnone] using h.answers

/-- The response of an operation for a status is that of the last leaf that has one, after its
way to the root. -/
theorem Tree.Folds.find?_responses {c : Catalog} {t : Tree} {p : Partial} {ls : List Leaf}
    {s : Collected} (h : t.Folds c p ls s) {k : PathKey} {m : Method} {status : String} {i : Nat}
    {l : Leaf} (hl : LastWith ls k m status i l) :
    ∃ x op r, (t.passages [])[i]? = some x ∧ p.operationAt k m = some op ∧
      l.operation.responses.find? status = some r ∧
      op.responses.find? status = some (x.response status r) := by
  obtain ⟨x, hx, hroute⟩ := h.exists_passage hl.here
  obtain ⟨r, hr⟩ := Option.isSome_iff_exists.1 hl.answers
  have hat : ∀ {j : Nat} {z : Leaf}, (arrivals (t.passages []) ls)[j]? = some z →
      ∃ (y : Passage) (l' : Leaf), ls[j]? = some l' ∧ y.route = l'.route ∧ z = y.arrival l' := by
    intro j z hz
    obtain ⟨y, l', hy, hl', rfl⟩ := List.getElem?_zipWith_eq_some.1 hz
    obtain ⟨y', hy', hyroute⟩ := h.exists_passage hl'
    obtain rfl := Option.some.inj (hy.symm.trans hy')
    exact ⟨y, l', hl', hyroute, rfl⟩
  have hz : (arrivals (t.passages []) ls)[i]? = some (x.arrival l) :=
    List.getElem?_zipWith_eq_some.2 ⟨x, l, hx, hl.here, rfl⟩
  have hkey : ∀ {y : Passage} {l' : Leaf}, y.route = l'.route →
      (y.arrival l').key = l'.key ∧ (y.arrival l').method = l'.method := by
    intro y l' hy
    simp [Passage.arrival, Leaf.key, Leaf.method, hy]
  obtain ⟨op, hop, hresponses⟩ := h.unites.find?_responses (proper_of_mem_arrivals h.wellFormed)
    (List.mem_of_getElem? hz)
  rw [(hkey hroute).1, (hkey hroute).2, hl.key, hl.method] at hop hresponses
  refine ⟨x, op, r, hx, hop, hr, ?_⟩
  rw [hresponses]
  refine findSome?_reverse_of_last hz ?_ fun j z hj hzj => ?_
  · rw [if_pos ⟨(hkey hroute).1.trans hl.key, (hkey hroute).2.trans hl.method⟩, Passage.arrival,
      Passage.find?_responses_operation, hr, Option.map_some]
  · obtain ⟨y, l', hl', hy, rfl⟩ := hat hzj
    split
    · next hidentity =>
        rw [(hkey hy).1, (hkey hy).2] at hidentity
        rw [Passage.arrival, Passage.find?_responses_operation,
          hl.last j l' hj ⟨hl', hidentity.1, hidentity.2⟩, Option.map_none]
    · rfl

/-! ## names that are spelled alike -/

/-- Where a name is the one of a capture in one route at a path, it is that in all of them. -/
def Settled (rs : List Route) (k : PathKey) (n : String) : Prop :=
  ∀ r ∈ rs, r.key = k → ∀ r' ∈ rs, r'.key = k → ∀ i : Nat,
    (captureNames r.qualifiers)[i]? = some n → (captureNames r'.qualifiers)[i]? = some n

/-- A name that is settled among routes is so among fewer. -/
theorem Settled.of_subset {rs rs' : List Route} {k : PathKey} {n : String} (h : Settled rs k n)
    (hsub : rs' ⊆ rs) : Settled rs' k n :=
  fun r hr hk r' hr' hk' => h r (hsub hr) hk r' (hsub hr') hk'

/-- The names at a path are those of one of its routes. -/
theorem namesAt_cases (rs : List Route) (k : PathKey) :
    namesAt rs k = [] ∨ ∃ r ∈ rs, r.key = k ∧ namesAt rs k = captureNames r.qualifiers := by
  rw [namesAt]
  cases h : rs.find? (·.key = k) with
  | none => exact .inl rfl
  | some r => exact .inr ⟨r, List.mem_of_find?_eq_some h, by simpa using List.find?_some h, rfl⟩

/-- A name that is settled is not replaced on the way. -/
theorem Tree.find?_renames_eq_none {above : List Qualifier} {t : Tree} {x : Passage}
    {renames : Table String String} {n : String} (hx : x ∈ t.passages above)
    (ht : renames ∈ x.renames) (h : Settled ((t.passages above).map (·.route)) x.route.key n) :
    renames.find? n = none := by
  induction t generalizing above x with
  | leaf e =>
      obtain rfl := List.mem_singleton.1 hx
      simp at ht
  | seq q t ih => exact ih hx ht h
  | alt l r ihl ihr =>
      simp only [passages, List.map_append, List.map_map, List.mem_append, List.mem_map] at hx h
      rcases hx with hx | ⟨y, hy, rfl⟩
      · exact ihl hx ht (h.of_subset (List.subset_append_left _ _))
      · rcases List.mem_append.1 ht with ht | ht
        · exact ihr hy ht (h.of_subset (List.subset_append_right _ _))
        · -- this table gives the captures of one route at the path the names of another one there
          obtain rfl := List.mem_singleton.1 ht
          rcases namesAt_cases ((l.passages above).map (·.route)) y.route.key with
            hleft | ⟨r₁, hr₁, hk₁, hleft⟩
          · rw [hleft]
            rfl
          · refine find?_renamesOf_eq_none fun i hi => ?_
            rcases namesAt_cases ((r.passages above).map (·.route)) y.route.key with
              hright | ⟨r₂, hr₂, hk₂, hright⟩
            · simp [hright] at hi
            · rw [hright] at hi
              rw [hleft]
              exact h r₂ (List.mem_append_right _ hr₂) hk₂ r₁ (List.mem_append_left _ hr₁) hk₁ i hi
  | empty => simp [passages] at hx
  | alien a => simp [passages] at hx

end ApiTree
