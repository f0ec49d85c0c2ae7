import ApiTree.Proofs.Compilation.Operations

/-!
# ApiTree.Proofs.Compilation.Captures

The captures of a path.  Routes at one path may call them by different names, even by the same
names in another order; a tree that folds (`Tree.Folds`) calls them as the first route at the
path does (`Partial.Summarizes.names_eq`).

* `compile_captures` — in every operation of a path the parameters in the path are the captures
  of the path, in order, each once and required.
-/

namespace ApiTree
open Compiling

/-! ## what a tree compiles to -/

/-- A tree folds to `p`; its routes compile, one after the other, to `ls`, and leave `s`. -/
structure Tree.Folds (c : Catalog) (t : Tree) (p : Partial) (ls : List Leaf) (s : Collected) :
    Prop where
  fold : ∃ events, (t.fold c []).run {} = .ok ((p, events), s)
  flatten : t.flatten = .ok (ls.map Leaf.route)
  leaves : (ApiTree.leaves c (ls.map Leaf.route)).run {} = .ok (ls, s)

/-- A tree that compiles folds, and what it collects is in its document. -/
theorem exists_folds_collected {c : Catalog} {t : Tree} {info : Info} {servers : List Server}
    {compiled : Compiled} (h : compile c t info servers = .ok compiled) :
    ∃ p ls s, t.Folds c p ls s ∧ compiled.document.paths = p.paths ∧
      compiled.document.components.securitySchemes = s.securitySchemes := by
  obtain ⟨⟨⟨p, events⟩, s⟩, hfold, h⟩ := bind_eq_ok_iff.1 h
  obtain rfl := pure_eq_ok_iff.1 h
  obtain ⟨rs, ls, hrs, hls, -⟩ := Tree.fold_summarizes hfold
  obtain ⟨rfl, -⟩ := wellFormed_of_leaves hls
  exact ⟨p, ls, s, ⟨⟨events, hfold⟩, hrs, hls⟩, rfl, rfl⟩

/-- A tree that compiles folds, and the paths of its document are those of what it folds to. -/
theorem exists_folds {c : Catalog} {t : Tree} {info : Info} {servers : List Server}
    {compiled : Compiled} (h : compile c t info servers = .ok compiled) :
    ∃ p ls s, t.Folds c p ls s ∧ compiled.document.paths = p.paths := by
  obtain ⟨p, ls, s, hfolds, hpaths, -⟩ := exists_folds_collected h
  exact ⟨p, ls, s, hfolds, hpaths⟩

namespace Tree.Folds

variable {c : Catalog} {t : Tree} {p : Partial} {ls : List Leaf} {s : Collected}

theorem wellFormed (h : t.Folds c p ls s) : ∀ l ∈ ls, l.WellFormed :=
  (wellFormed_of_leaves h.leaves).2

theorem summarizes (h : t.Folds c p ls s) : Coherent ls ∧ p.Summarizes ls := by
  obtain ⟨events, hfold⟩ := h.fold
  exact summarizes_of_fold h.flatten h.leaves hfold

end Tree.Folds

/-! ## names of captures -/

/-- The names of the captures at a path: those of the first of some routes that is there. -/
def namesAt (rs : List Route) (k : PathKey) : List String :=
  ((rs.find? (·.key = k)).map fun r => captureNames r.qualifiers).getD []

/-- The names of the captures at a path of a partial document. -/
def Partial.names (p : Partial) (k : PathKey) : List String :=
  ((Table.find? p k).map PathEntry.captures).getD []

theorem Partial.Summarizes.names_eq {p : Partial} {ls : List Leaf} (hp : p.Summarizes ls)
    (k : PathKey) : p.names k = namesAt (ls.map Leaf.route) k := by
  have hnames : namesAt (ls.map Leaf.route) k =
      ((ls.filter (·.key = k)).head?.map Leaf.captures).getD [] := by
    rw [namesAt, List.find?_map, Option.map_map, List.head?_filter]
    rfl
  rw [hnames, names]
  cases hk : Table.find? p k with
  | none => rw [hp.group_eq_nil hk]; rfl
  | some e => rw [(hp.values k e hk).captures]; rfl

/-- In a tree that compiles, an entry is for a path of some route and has the names of the
captures that the first route at the path has; they differ.  In each of its operations the
parameters in the path have these names, in order, and are required, and no two parameters are
at one place under one name. -/
theorem compile_captures (c : Catalog) (t : Tree) (info : Info) (servers : List Server)
    (compiled : Compiled) (h : compile c t info servers = .ok compiled) :
    ∃ p ls s, t.Folds c p ls s ∧ compiled.document.paths = p.paths ∧
      ∀ x ∈ (p : List (PathKey × PathEntry)),
        (∃ r, (ls.map Leaf.route).find? (·.key = x.1) = some r ∧
          x.2.captures = captureNames r.qualifiers) ∧
        x.2.captures.Nodup ∧
        ∀ y ∈ (x.2.operations : List (Method × Operation)),
          (captured y.2.parameters).map (·.name) = x.2.captures ∧
          (∀ q ∈ captured y.2.parameters, q.required = some true) ∧
          (y.2.parameters.map fun q => (q.location, q.name)).Nodup := by
  obtain ⟨p, ls, s, hfolds, hpaths⟩ := exists_folds h
  obtain ⟨hcoherent, hp⟩ := hfolds.summarizes
  refine ⟨p, ls, s, hfolds, hpaths, fun ⟨k, e⟩ hx => ?_⟩
  have he : e.Summarizes (ls.filter (·.key = k)) :=
    hp.values k e (Table.find?_of_mem hp.nodup_keys hx)
  have hat := Partial.Summarizes.atOnePath hfolds.wellFormed hcoherent k
  refine ⟨?_, he.nodup_captures hat, fun ⟨m, op⟩ hy => ?_⟩
  · have hcaptures := he.captures
    rw [List.head?_filter] at hcaptures
    obtain ⟨l, hl, hnames⟩ := Option.map_eq_some_iff.1 hcaptures
    refine ⟨l.route, ?_, hnames.symm⟩
    rw [List.find?_map]
    exact congrArg (Option.map Leaf.route) hl
  · have hop := Table.find?_of_mem he.operations.nodup_keys hy
    have hspelled := spelledBy_of_together (he.nodup_captures hat) (he.declares hat hop)
      (he.operations.values m op hop)
    exact ⟨hspelled.names, hspelled.required, hspelled.keys⟩

/-- A way from one place to another. -/
def wayBetween (first second : String) (m : Method) : Route :=
  ⟨[.segment "ways", .capture first (.scalar .str) none, .capture second (.scalar .int) none],
    { method := m }⟩

/-- Two operations on ways that give the names of the two places in different order. -/
def ways : Tree :=
  .alt
    (Tree.under (wayBetween "from" "to" .get).qualifiers
      (.leaf (wayBetween "from" "to" .get).endpoint))
    (Tree.under (wayBetween "to" "from" .put).qualifiers
      (.leaf (wayBetween "to" "from" .put).endpoint))

/-- The second operation takes over the names of the first. -/
theorem ways_captures : ∃ p ls s op, ways.Folds [] p ls s ∧
    p.operationAt (wayBetween "from" "to" .get).key .put = some op ∧
    (captured op.parameters).map (·.name) = ["from", "to"] := by
  have hok : (compile [] ways {} []).toOption.isSome = true := by decide +kernel
  obtain ⟨compiled, hcompiled⟩ := isSome_toOption_iff.1 hok
  obtain ⟨p, ls, s, hfolds, -, hentries⟩ := compile_captures [] ways {} [] compiled hcompiled
  have hroutes : ls.map Leaf.route = [wayBetween "from" "to" .get, wayBetween "to" "from" .put] :=
    (Except.ok.inj hfolds.flatten).symm
  obtain ⟨op, hop⟩ :=
    (exists_operationAt_iff hfolds.summarizes.2 (wayBetween "from" "to" .get).key .put).2
      ⟨wayBetween "to" "from" .put, by simp [hroutes], rfl, rfl⟩
  obtain ⟨e, he, hm⟩ := Option.bind_eq_some_iff.1 hop
  obtain ⟨⟨r, hr, hcaptures⟩, -, hoperations⟩ := hentries _ (Table.mem_of_find? he)
  obtain ⟨hnames, -⟩ := hoperations _ (Table.mem_of_find? hm)
  rw [hroutes] at hr
  obtain rfl := Option.some.inj hr
  exact ⟨p, ls, s, op, hfolds, hop, hnames.trans hcaptures⟩

end ApiTree
