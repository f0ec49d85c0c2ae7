import ApiTree.Proofs.Compilation.Summary
import Mathlib.Data.Set.Function

/-!
# ApiTree.Proofs.Compilation.Operations

Which operations the document of a tree has.  While a tree is folded, paths are
told apart by their keys; in the document they are told apart by their spellings
alone.  A spelling does not tell a capture from a capture of all that remains, nor
from a segment in braces, nor two segments from one with a slash in it.

* `compile_operations_bijOn_iff` — no operation is invented; and the operations of
  the document stand for the paths and methods of the routes one to one exactly
  when no two paths are spelled alike.  Of two paths that are, the operations of
  the earlier one are lost.
-/

namespace ApiTree
open Compiling

/-- The operation of a method in the paths of a document, at a path as it is spelled. -/
def operationIn (paths : Table String PathItem) (path : String) (m : Method) : Option Operation :=
  (paths.find? path).bind (·.operation m)

/-- The operation of a method in a partial document, at a path. -/
def Partial.operationAt (p : Partial) (k : PathKey) (m : Method) : Option Operation :=
  (Table.find? p k).bind fun e => e.operations.find? m

/-- How the path of a key is spelled among some routes: as by the first route at it. -/
def spelling (rs : List Route) (k : PathKey) : String :=
  ((rs.find? (·.key = k)).map Route.display).getD ""

/-- Routes at different paths are spelled apart. -/
def SpelledApart (rs : List Route) : Prop :=
  ∀ r ∈ rs, ∀ r' ∈ rs, spelling rs r.key = spelling rs r'.key → r.key = r'.key

instance (rs : List Route) : Decidable (SpelledApart rs) :=
  inferInstanceAs (Decidable (∀ r ∈ rs, ∀ r' ∈ rs, _ → _))

/-- The paths and methods of routes. -/
def places (rs : List Route) : Set (PathKey × Method) :=
  {x | ∃ r ∈ rs, r.key = x.1 ∧ r.endpoint.method = x.2}

/-- The operations that there are in the paths of a document. -/
def operationsIn (paths : Table String PathItem) : Set (String × Method) :=
  {y | ∃ op, operationIn paths y.1 y.2 = some op}

theorem PathItem.operation_foldl_set {ops : Table Method Operation} (hn : ops.keys.Nodup)
    (item : PathItem) (m : Method) : (ops.foldl (fun i e => i.set e.1 e.2) item).operation m =
      (ops.find? m).or (item.operation m) := by
  induction ops generalizing item with
  | nil => simp
  | cons e ops ih =>
      obtain ⟨n, op⟩ := e
      obtain ⟨hmem, hn⟩ := List.nodup_cons.1 hn
      rw [List.foldl_cons, ih hn, Table.find?_cons]
      by_cases hmn : m = n
      · subst hmn
        have hnone : Table.find? ops m = none := (Table.find?_eq_none_iff ops m).2 hmem
        simp [hnone]
      · simp [hmn, operation_set_of_ne item op hmn]

theorem PathItem.operation_ofOperations {ops : Table Method Operation} (hn : ops.keys.Nodup)
    (m : Method) : (ofOperations ops).operation m = ops.find? m := by
  have hempty : (({} : PathItem).operation m) = none := by cases m <;> rfl
  exact (operation_foldl_set hn {} m).trans (by rw [hempty, Option.or_none])

section Paths

variable {p : Partial} {ls : List Leaf}

/-- The entry of a path is spelled as by the first route at it. -/
theorem spelling_of_summarizes (hp : p.Summarizes ls) {k : PathKey} {e : PathEntry}
    (he : Table.find? p k = some e) : spelling (ls.map Leaf.route) k = e.display := by
  have hdisplay := (hp.values k e he).display
  rw [List.head?_filter] at hdisplay
  rw [spelling, List.find?_map, Option.map_map]
  change ((ls.find? (·.key = k)).map fun l => l.route.display).getD "" = e.display
  rw [hdisplay]
  rfl

/-- What stands at a path of the document comes from an entry that is spelled so. -/
theorem exists_entry_of_paths (hp : p.Summarizes ls) {path : String} {item : PathItem}
    (h : p.paths.find? path = some item) :
    ∃ k e, Table.find? p k = some e ∧ e.display = path ∧
      ∀ m, item.operation m = p.operationAt k m := by
  obtain ⟨⟨k, e⟩, hmem, heq⟩ := List.mem_map.1 (Table.mem_of_mem_ofList (Table.mem_of_find? h))
  obtain ⟨rfl, rfl⟩ := Prod.mk.inj heq
  have he := Table.find?_of_mem hp.nodup_keys hmem
  refine ⟨k, e, he, rfl, fun m => ?_⟩
  rw [PathItem.operation_ofOperations (hp.values k e he).operations.nodup_keys,
    Partial.operationAt, he, Option.bind_some]

theorem exists_operationAt_iff (hp : p.Summarizes ls) (k : PathKey) (m : Method) :
    (∃ op, p.operationAt k m = some op) ↔ (k, m) ∈ places (ls.map Leaf.route) := by
  constructor
  · rintro ⟨op, hop⟩
    obtain ⟨e, he, hop⟩ := Option.bind_eq_some_iff.1 hop
    obtain ⟨l, hl, hm⟩ := ((hp.values k e he).operations.find?_isSome_iff m).1 ⟨op, hop⟩
    obtain ⟨hl, hk⟩ := mem_group_iff.1 hl
    exact ⟨l.route, List.mem_map_of_mem hl, hk, hm⟩
  · rintro ⟨r, hr, rfl, rfl⟩
    obtain ⟨l, hl, rfl⟩ := List.mem_map.1 hr
    obtain ⟨e, he⟩ := hp.exists_find? hl
    obtain ⟨op, hop⟩ := (hp.values _ e he).operations.exists_find?
      (mem_group_iff.2 ⟨hl, rfl⟩)
    exact ⟨op, Option.bind_eq_some_iff.2 ⟨e, he, hop⟩⟩

/-- An operation in the document is the one of a route at a path that is spelled so. -/
theorem exists_route_of_operationIn (hp : p.Summarizes ls) {path : String} {m : Method}
    {op : Operation} (h : operationIn p.paths path m = some op) :
    ∃ r ∈ ls.map Leaf.route, spelling (ls.map Leaf.route) r.key = path ∧
      r.endpoint.method = m ∧ p.operationAt r.key m = some op := by
  obtain ⟨item, hitem, hop⟩ := Option.bind_eq_some_iff.1 h
  obtain ⟨k, e, he, hpath, hops⟩ := exists_entry_of_paths hp hitem
  rw [hops] at hop
  obtain ⟨r, hr, rfl, hm⟩ := (exists_operationAt_iff hp k m).1 ⟨op, hop⟩
  exact ⟨r, hr, (spelling_of_summarizes hp he).trans hpath, hm, hop⟩

/-- Entries of routes that are spelled apart keep their places in the document. -/
theorem find?_paths_of_spelledApart (hp : p.Summarizes ls)
    (hapart : SpelledApart (ls.map Leaf.route)) {k : PathKey} {e : PathEntry}
    (he : Table.find? p k = some e) :
    p.paths.find? e.display = some (PathItem.ofOperations e.operations) := by
  have hfind : ∀ x ∈ (p : List (PathKey × PathEntry)), Table.find? p x.1 = some x.2 :=
    fun x hx => Table.find?_of_mem hp.nodup_keys hx
  have hkeys : ∀ k e k' e', Table.find? p k = some e → Table.find? p k' = some e' →
      e.display = e'.display → k = k' := by
    intro k e k' e' he he' hdisplay
    obtain ⟨l, hl, rfl⟩ := (hp.find?_isSome_iff k).1 ⟨e, he⟩
    obtain ⟨l', hl', rfl⟩ := (hp.find?_isSome_iff k').1 ⟨e', he'⟩
    refine hapart l.route (List.mem_map_of_mem hl) l'.route (List.mem_map_of_mem hl') ?_
    exact (spelling_of_summarizes hp he).trans
      (hdisplay.trans (spelling_of_summarizes hp he').symm)
  have hnodup : (Table.keys (p.map fun x : PathKey × PathEntry =>
      (x.2.display, PathItem.ofOperations x.2.operations))).Nodup := by
    rw [Table.keys, List.map_map]
    refine List.Nodup.map_on (fun x hx y hy hxy => ?_) (List.Nodup.of_map _ hp.nodup_keys)
    have hkey := hkeys x.1 x.2 y.1 y.2 (hfind x hx) (hfind y hy) hxy
    have hentry := hfind x hx
    rw [hkey, hfind y hy] at hentry
    exact Prod.ext hkey (Option.some.inj hentry).symm
  rw [show p.paths = _ from Table.ofList_of_nodup hnodup]
  exact Table.find?_of_mem hnodup (List.mem_map.2 ⟨(k, e), Table.mem_of_find? he, rfl⟩)

theorem operationIn_of_spelledApart (hp : p.Summarizes ls)
    (hapart : SpelledApart (ls.map Leaf.route)) {r : Route} (hr : r ∈ ls.map Leaf.route) :
    operationIn p.paths (spelling (ls.map Leaf.route) r.key) r.endpoint.method =
      p.operationAt r.key r.endpoint.method := by
  obtain ⟨l, hl, rfl⟩ := List.mem_map.1 hr
  obtain ⟨e, he⟩ := hp.exists_find? hl
  rw [operationIn, show l.route.key = l.key from rfl, spelling_of_summarizes hp he,
    find?_paths_of_spelledApart hp hapart he, Option.bind_some,
    PathItem.operation_ofOperations (hp.values _ e he).operations.nodup_keys,
    Partial.operationAt, he, Option.bind_some]

theorem bijOn_of_spelledApart (hp : p.Summarizes ls) (hapart : SpelledApart (ls.map Leaf.route)) :
    Set.BijOn (fun x => (spelling (ls.map Leaf.route) x.1, x.2)) (places (ls.map Leaf.route))
      (operationsIn p.paths) := by
  refine ⟨?_, ?_, ?_⟩
  · rintro ⟨k, m⟩ ⟨r, hr, rfl, rfl⟩
    obtain ⟨op, hop⟩ := (exists_operationAt_iff hp _ _).2 ⟨r, hr, rfl, rfl⟩
    exact ⟨op, (operationIn_of_spelledApart hp hapart hr).trans hop⟩
  · rintro ⟨k, m⟩ ⟨r, hr, rfl, rfl⟩ ⟨k', m'⟩ ⟨r', hr', rfl, rfl⟩ heq
    obtain ⟨hspelling, hm⟩ := Prod.mk.inj heq
    exact Prod.ext (hapart r hr r' hr' hspelling) hm
  · rintro ⟨path, m⟩ ⟨op, hop⟩
    obtain ⟨r, hr, hpath, rfl, -⟩ := exists_route_of_operationIn hp hop
    exact ⟨(r.key, r.endpoint.method), ⟨r, hr, rfl, rfl⟩, Prod.ext hpath rfl⟩

/-- If two paths are spelled alike, the entry that came last has the place of both;
so a method of the earlier one is lost, or found to be that of the later one. -/
theorem spelledApart_of_bijOn (hp : p.Summarizes ls)
    (h : Set.BijOn (fun x => (spelling (ls.map Leaf.route) x.1, x.2)) (places (ls.map Leaf.route))
      (operationsIn p.paths)) : SpelledApart (ls.map Leaf.route) := by
  intro r hr r' hr' hsame
  obtain ⟨op, hop⟩ := h.mapsTo (show (r.key, r.endpoint.method) ∈ _ from ⟨r, hr, rfl, rfl⟩)
  obtain ⟨item, hitem, -⟩ := Option.bind_eq_some_iff.1 hop
  obtain ⟨k, e, he, hdisplay, hops⟩ := exists_entry_of_paths hp hitem
  have hspelling : spelling (ls.map Leaf.route) k = spelling (ls.map Leaf.route) r.key :=
    (spelling_of_summarizes hp he).trans hdisplay
  have hlast : ∀ x ∈ ls.map Leaf.route,
      spelling (ls.map Leaf.route) x.key = spelling (ls.map Leaf.route) r.key → x.key = k := by
    intro x hx hxr
    have hplace : (x.key, x.endpoint.method) ∈ places (ls.map Leaf.route) := ⟨x, hx, rfl, rfl⟩
    obtain ⟨op, hop⟩ := h.mapsTo hplace
    simp only [operationIn, hxr, hitem, Option.bind_some, hops] at hop
    have hplace' := (exists_operationAt_iff hp k x.endpoint.method).1 ⟨op, hop⟩
    exact congrArg Prod.fst (h.injOn hplace hplace' (Prod.ext (hxr.trans hspelling.symm) rfl))
  rw [hlast r hr rfl, hlast r' hr' hsame.symm]

end Paths

/-- The document of a tree has no operation but those of its routes, each under the
spelling of the first route at its path.  They stand for the paths and methods
of the routes one to one exactly when routes at different paths are spelled apart. -/
theorem compile_operations_bijOn_iff (c : Catalog) (t : Tree) (info : Info)
    (servers : List Server) (rs : List Route) (compiled : Compiled) (hr : t.flatten = .ok rs)
    (h : compile c t info servers = .ok compiled) :
    ∃ p events s, (t.fold c []).run {} = .ok ((p, events), s) ∧
      (∀ path m op, operationIn compiled.document.paths path m = some op →
        ∃ r ∈ rs, spelling rs r.key = path ∧ r.endpoint.method = m ∧
          p.operationAt r.key m = some op) ∧
      (SpelledApart rs ↔ Set.BijOn (fun x => (spelling rs x.1, x.2)) (places rs)
        (operationsIn compiled.document.paths)) ∧
      (SpelledApart rs → ∀ r ∈ rs,
        operationIn compiled.document.paths (spelling rs r.key) r.endpoint.method =
          p.operationAt r.key r.endpoint.method) := by
  obtain ⟨⟨⟨p, events⟩, s⟩, hfold, h⟩ := bind_eq_ok_iff.1 h
  obtain rfl := pure_eq_ok_iff.1 h
  obtain ⟨rs', ls, hrs, hls, -, hp⟩ := Tree.fold_summarizes hfold
  obtain rfl := Except.ok.inj (hr.symm.trans hrs)
  obtain ⟨rfl, -⟩ := wellFormed_of_leaves hls
  exact ⟨p, events, s, hfold, fun path m op => exists_route_of_operationIn hp,
    ⟨bijOn_of_spelledApart hp, spelledApart_of_bijOn hp⟩,
    fun hapart r => operationIn_of_spelledApart hp hapart⟩

/-- Reading a file. -/
def readFile : Route :=
  ⟨[.segment "files", .capture "path" (.scalar .str) none], { method := .get }⟩

/-- Writing to any place below a directory, which is given by its path. -/
def writeBelow (path : String) : Route :=
  ⟨[.segment "files", .captureAll path (.scalar .str) none], { method := .post }⟩

/-- Reading and writing side by side. -/
def readOrWrite (path : String) : Tree :=
  .alt (Tree.under readFile.qualifiers (.leaf readFile.endpoint))
    (Tree.under (writeBelow path).qualifiers (.leaf (writeBelow path).endpoint))

/-- Reading is lost beside writing if the two paths are spelled alike, and only then. -/
theorem readOrWrite_operations :
    (∃ compiled, compile [] (readOrWrite "path") {} [] = .ok compiled ∧
      operationIn compiled.document.paths "/files/\x7bpath\x7d" .get = none ∧
      ¬ Set.BijOn (fun x => (spelling [readFile, writeBelow "path"] x.1, x.2))
          (places [readFile, writeBelow "path"]) (operationsIn compiled.document.paths)) ∧
    ∃ compiled p events s, compile [] (readOrWrite "rest") {} [] = .ok compiled ∧
      ((readOrWrite "rest").fold [] []).run {} = .ok ((p, events), s) ∧
      operationIn compiled.document.paths "/files/\x7bpath\x7d" .get =
        p.operationAt readFile.key .get := by
  constructor
  · have hok : (compile [] (readOrWrite "path") {} []).toOption.any (fun compiled =>
        (operationIn compiled.document.paths "/files/\x7bpath\x7d" .get).isNone) = true := by
      decide +kernel
    obtain ⟨compiled, hcompiled, hlost⟩ := (Option.any_eq_true _ _).1 hok
    have h := toOption_eq_some_iff.1 hcompiled
    obtain ⟨p, events, s, -, -, hiff, -⟩ :=
      compile_operations_bijOn_iff [] _ {} [] [readFile, writeBelow "path"] compiled rfl h
    have hapart : ¬ SpelledApart [readFile, writeBelow "path"] := by decide +kernel
    exact ⟨compiled, h, Option.isNone_iff_eq_none.1 hlost, fun hbij => hapart (hiff.2 hbij)⟩
  · have hok : (compile [] (readOrWrite "rest") {} []).toOption.isSome = true := by
      decide +kernel
    obtain ⟨compiled, hcompiled⟩ := Option.isSome_iff_exists.1 hok
    have h := toOption_eq_some_iff.1 hcompiled
    obtain ⟨p, events, s, hfold, -, -, hfound⟩ :=
      compile_operations_bijOn_iff [] _ {} [] [readFile, writeBelow "rest"] compiled rfl h
    have hapart : SpelledApart [readFile, writeBelow "rest"] := by decide +kernel
    exact ⟨compiled, p, events, s, h, hfold, hfound hapart readFile (by simp)⟩

end ApiTree
