import ApiTree.Proofs.Compilation.Answers

/-!
# ApiTree.Proofs.Compilation.NotFound

The inferred text for a path that is not found.  A leaf writes it with the names that its own
route gives to the captures; each merge that has the leaf on its right side then replaces names
in the text.  Read by places the text does not change: on its way to the root every name turns into
the one that the first route of the path has at the same place (`Tree.map_called_captureNames`),
even where two names change places, and the text codes the names it has become
(`Tree.text_orList`).

* `compile_inferred_notFound` — the text names the captures that may not be found as the published
  path does.
-/

namespace ApiTree

/-! ## captures that may not be found -/

/-- The type of a capture. -/
def Qualifier.captureType? : Qualifier → Option Ty
  | .capture _ t _ | .captureAll _ t _ => some t
  | _ => none

/-- The types of the captures of a route, in order. -/
def Route.captureTypes (r : Route) : List Ty := r.qualifiers.filterMap Qualifier.captureType?

/-- The names at the places of all types but that of plain texts, in order. -/
def fallible (names : List String) (types : List Ty) : List String :=
  ((names.zip types).filter fun x => x.2.decodeCanFail).map Prod.fst

/-- The names that may be missing are names of captures. -/
theorem fallible_subset (names : List String) (types : List Ty) :
    fallible names types ⊆ names := by
  intro n hn
  obtain ⟨x, hx, rfl⟩ := List.mem_map.1 hn
  exact (List.of_mem_zip (List.mem_of_mem_filter hx)).1

/-- Places stay as they are when names are changed one by one. -/
theorem map_fallible (f : String → String) (names : List String) (types : List Ty) :
    (fallible names types).map f = fallible (names.map f) types := by
  simp only [fallible, List.zip_map_left, List.filter_map, List.map_map]
  rfl

/-- What may be missing are the captures whose types may fail. -/
theorem filterMap_missing?_eq (qs : List Qualifier) :
    qs.filterMap Qualifier.missing? =
      fallible (captureNames qs) (qs.filterMap Qualifier.captureType?) := by
  induction qs with
  | nil => rfl
  | cons q qs ih =>
      cases q with
      | capture name t d | captureAll name t d =>
          cases ht : t.decodeCanFail <;>
            simp_all [Qualifier.missing?, Qualifier.captureType?, Qualifier.captureName?,
              captureNames, fallible]
      | _ => exact ih

/-! ## the text -/

section Text

variable {renames : Table String String} {names : List String} {cs out : List Char}

/-- Names are listed with `or` between them. -/
theorem orList_cons_cons (n n' : String) (names : List String) :
    orList (n :: n' :: names) = coded n ++ " or " ++ orList (n' :: names) := by
  rw [orList, List.map_cons, List.map_cons, String.intercalate_cons_cons]
  rfl

/-- A single name is listed as code. -/
theorem orList_singleton (n : String) : orList [n] = coded n := String.intercalate_singleton

/-- A name that is written as code is renamed. -/
theorem Rewrites.toList_coded {name : String} (hname : Codable name)
    (h : Rewrites renames cs out) :
    Rewrites renames ((ApiTree.coded name).toList ++ cs)
      ((ApiTree.coded (renamed renames name)).toList ++ out) := by
  simpa [ApiTree.coded] using Rewrites.coded hname h

/-- In a list of coded names each is replaced on its own. -/
theorem Rewrites.toList_orList (hnames : ∀ n ∈ names, Codable n) (h : Rewrites renames cs out) :
    Rewrites renames ((orList names).toList ++ cs)
      ((orList (names.map (renamed renames))).toList ++ out) := by
  induction names with
  | nil => exact h
  | cons n names ih =>
      obtain ⟨hn, hnames⟩ := List.forall_mem_cons.1 hnames
      cases names with
      | nil => simpa [orList_singleton] using h.toList_coded hn
      | cons n' names =>
          have hor : '\x60' ∉ " or ".toList := by decide
          have hrest := ((ih hnames).append hor).toList_coded hn
          simpa only [List.map_cons, orList_cons_cons, String.toList_append, List.append_assoc]
            using hrest

/-- The inferred text for names is renamed to that for the new names. -/
theorem renameText_orList (hnames : ∀ n ∈ names, Codable n) :
    renameText renames (orList names ++ " not found") =
      orList (names.map (renamed renames)) ++ " not found" := by
  have hplain : '\x60' ∉ " not found".toList := by decide
  have hrest : Rewrites renames (" not found".toList ++ []) (" not found".toList ++ []) :=
    Rewrites.nil.append hplain
  rw [List.append_nil] at hrest
  refine Rewrites.renameText_eq ?_
  rw [String.toList_append, String.toList_append]
  exact hrest.toList_orList hnames

end Text

/-! ## names on their way to the root -/

namespace Passage

/-- What becomes of the name of a capture. -/
def called (x : Passage) (name : String) : String :=
  x.renames.foldl (fun n t => renamed t n) name

@[simp] theorem route_through (x : Passage) (t : Table String String) :
    (x.through t).route = x.route := rfl

/-- One more renaming renames the names once more. -/
theorem map_called_through (x : Passage) (t : Table String String) (names : List String) :
    names.map (x.through t).called = (names.map x.called).map (renamed t) := by
  simp [through, called, List.foldl_append]

/-- One more renaming rewrites a text once more. -/
theorem text_through (x : Passage) (t : Table String String) (s : String) :
    (x.through t).text s = renameText t (x.text s) := by
  simp [through, text, List.foldl_append]

end Passage

/-- The names at a path are those of some route there, if there is one. -/
theorem exists_namesAt_eq {rs : List Route} {r : Route} (hr : r ∈ rs) :
    ∃ first, rs.find? (·.key = r.key) = some first ∧ first ∈ rs ∧ first.key = r.key ∧
      namesAt rs r.key = captureNames first.qualifiers := by
  have hsome : (rs.find? (·.key = r.key)).isSome := List.find?_isSome.2 ⟨r, hr, by simp⟩
  obtain ⟨first, hfirst⟩ := Option.isSome_iff_exists.1 hsome
  refine ⟨first, hfirst, List.mem_of_find?_eq_some hfirst, ?_, ?_⟩
  · simpa using List.find?_some hfirst
  · rw [namesAt, hfirst]
    rfl

/-- The names at a path are those of the first routes that are there. -/
theorem namesAt_append_of_mem {ls : List Route} {r : Route} (hr : r ∈ ls) (rs : List Route) :
    namesAt (ls ++ rs) r.key = namesAt ls r.key := by
  obtain ⟨first, hfirst, -⟩ := exists_namesAt_eq hr
  rw [namesAt, namesAt, List.find?_append, hfirst, Option.some_or]

/-- Routes at other paths give no names. -/
theorem namesAt_of_forall_ne {ls : List Route} {k : PathKey} (h : ∀ r ∈ ls, r.key ≠ k)
    (rs : List Route) : namesAt ls k = [] ∧ namesAt (ls ++ rs) k = namesAt rs k := by
  have hnone : ls.find? (·.key = k) = none := List.find?_eq_none.2 (by simpa using h)
  rw [namesAt, namesAt, namesAt, List.find?_append, hnone, Option.none_or]
  exact ⟨rfl, rfl⟩

/-- A merge gives the names on its right side to those on its left, place by place. -/
theorem map_renamed_namesAt (ls : List Route) {rs : List Route} {r : Route} (hr : r ∈ rs)
    (hn : ∀ r' ∈ rs, r'.key = r.key → (captureNames r'.qualifiers).Nodup) :
    (namesAt rs r.key).map (renamed (renamesOf (namesAt ls r.key) (namesAt rs r.key))) =
      namesAt (ls ++ rs) r.key := by
  obtain ⟨first, -, hmem, hkey, hright⟩ := exists_namesAt_eq hr
  by_cases hls : ∃ r' ∈ ls, r'.key = r.key
  · obtain ⟨r', hr', hk⟩ := hls
    obtain ⟨first', -, -, hkey', hleft⟩ := exists_namesAt_eq hr'
    rw [hk] at hkey' hleft
    have hkeys : pathKey first'.qualifiers = pathKey first.qualifiers := hkey'.trans hkey.symm
    have hlength : (namesAt ls r.key).length = (namesAt rs r.key).length := by
      rw [hleft, hright, length_captureNames, length_captureNames, hkeys]
    rw [map_renamed_renamesOf hlength (hright ▸ hn first hmem hkey), ← hk,
      namesAt_append_of_mem hr']
  · obtain ⟨hnil, happend⟩ :=
      namesAt_of_forall_ne (fun r' hr' hk => hls ⟨r', hr', hk⟩) rs
    have hsame : renamed (renamesOf [] (namesAt rs r.key)) = id := rfl
    rw [hnil, happend, hsame, List.map_id]

namespace Tree

variable {above : List Qualifier} {t : Tree} {x : Passage}

/-- The passages of a choice are those of its sides. -/
theorem map_route_passages_alt (above : List Qualifier) (l r : Tree) :
    ((alt l r).passages above).map (·.route) =
      (l.passages above).map (·.route) ++ (r.passages above).map (·.route) := by
  rw [passages, List.map_append, List.map_map]
  rfl

/-- A way through an alternative is one on the left, or one on the right that goes on to where the
names on the right give way to those on the left. -/
theorem mem_passages_alt {above : List Qualifier} {l r : Tree} {x : Passage} :
    x ∈ (alt l r).passages above ↔ x ∈ l.passages above ∨ ∃ y ∈ r.passages above,
      x = y.through (renamesOf (namesAt ((l.passages above).map (·.route)) y.route.key)
        (namesAt ((r.passages above).map (·.route)) y.route.key)) := by
  simp only [passages, List.mem_append, List.mem_map, eq_comm]

/-- Every capture ends up with the name that the first route of its path has at its place. -/
theorem map_called_captureNames (hx : x ∈ t.passages above)
    (hn : ∀ r ∈ (t.passages above).map (·.route), r.key = x.route.key →
      (captureNames r.qualifiers).Nodup) :
    (captureNames x.route.qualifiers).map x.called =
      namesAt ((t.passages above).map (·.route)) x.route.key := by
  induction t generalizing above x with
  | leaf e =>
      obtain rfl := List.mem_singleton.1 hx
      have hsame : (Passage.mk ⟨above, e⟩ []).called = id := rfl
      rw [hsame, List.map_id]
      simp [passages, namesAt]
  | seq q t ih => exact ih hx hn
  | alt l r ihl ihr =>
      rw [map_route_passages_alt] at hn ⊢
      rcases mem_passages_alt.1 hx with hx | ⟨y, hy, rfl⟩
      · rw [ihl hx fun r' hr' => hn r' (List.mem_append_left _ hr')]
        exact (namesAt_append_of_mem (List.mem_map_of_mem hx) _).symm
      · have hright : ∀ r' ∈ (r.passages above).map (·.route), r'.key = y.route.key →
            (captureNames r'.qualifiers).Nodup :=
          fun r' hr' hk => hn r' (List.mem_append_right _ hr') hk
        rw [Passage.map_called_through, Passage.route_through, ihr hy hright]
        exact map_renamed_namesAt _ (List.mem_map_of_mem hy) hright
  | empty => simp [passages] at hx
  | alien a => simp [passages] at hx

/-- A text that codes names of captures codes the names that they have become. -/
theorem text_orList (hx : x ∈ t.passages above)
    (hn : ∀ r ∈ (t.passages above).map (·.route), r.key = x.route.key →
      (captureNames r.qualifiers).Nodup ∧ ∀ n ∈ captureNames r.qualifiers, Codable n)
    {names : List String} (hnames : names ⊆ captureNames x.route.qualifiers) :
    x.text (orList names ++ " not found") = orList (names.map x.called) ++ " not found" := by
  induction t generalizing above x with
  | leaf e =>
      obtain rfl := List.mem_singleton.1 hx
      have hsame : (Passage.mk ⟨above, e⟩ []).called = id := rfl
      rw [hsame, List.map_id]
      rfl
  | seq q t ih => exact ih hx hn hnames
  | alt l r ihl ihr =>
      rw [map_route_passages_alt] at hn
      rcases mem_passages_alt.1 hx with hx | ⟨y, hy, rfl⟩
      · exact ihl hx (fun r' hr' => hn r' (List.mem_append_left _ hr')) hnames
      · rw [Passage.route_through] at hn hnames
        have hright : ∀ r' ∈ (r.passages above).map (·.route), r'.key = y.route.key →
            (captureNames r'.qualifiers).Nodup ∧ ∀ n ∈ captureNames r'.qualifiers, Codable n :=
          fun r' hr' hk => hn r' (List.mem_append_right _ hr') hk
        -- what the names have become on the right are names of a route there
        have hcodable : ∀ n ∈ names.map y.called, Codable n := by
          intro n hmem
          obtain ⟨first, -, hfirst, hkey, hfirstnames⟩ :=
            exists_namesAt_eq (List.mem_map_of_mem (f := Passage.route) hy)
          have hcalled := List.map_subset y.called hnames hmem
          rw [map_called_captureNames hy fun r' hr' hk => (hright r' hr' hk).1, hfirstnames]
            at hcalled
          exact (hright first hfirst hkey).2 n hcalled
        rw [Passage.text_through, ihr hy hright hnames, renameText_orList hcodable,
          Passage.map_called_through]
  | empty => simp [passages] at hx
  | alien a => simp [passages] at hx

end Tree

/-- The inferred text says which captures may not be found. -/
theorem Route.eq_of_inferred?_notFound {r : Route} {text : String}
    (h : r.inferred? "404" = some text) :
    text = orList (fallible (captureNames r.qualifiers) r.captureTypes) ++ " not found" := by
  rw [inferred?, inferredText, if_neg (by decide), if_pos rfl, filterMap_missing?_eq] at h
  split at h
  · cases h
  · exact (Option.some.inj h).symm

/-- The entry of a path is spelled as the first route there, and has the names of its captures. -/
theorem Partial.Summarizes.exists_first {p : Partial} {ls : List Leaf} (hp : p.Summarizes ls)
    {k : PathKey} {e : PathEntry} (he : Table.find? p k = some e) :
    ∃ first, (ls.map Leaf.route).find? (·.key = k) = some first ∧ e.display = first.display ∧
      e.captures = captureNames first.qualifiers := by
  obtain ⟨l, hl, hk⟩ := (hp.find?_isSome_iff k).1 ⟨e, he⟩
  have hk : l.route.key = k := hk
  obtain ⟨first, hfirst, -, -, hnames⟩ :=
    exists_namesAt_eq (List.mem_map_of_mem (f := Leaf.route) hl)
  rw [hk] at hfirst hnames
  refine ⟨first, hfirst, ?_, ?_⟩
  · rw [← spelling_of_summarizes hp he, spelling, hfirst]
    rfl
  · rw [← hnames, ← hp.names_eq, names, he]
    rfl

/-- The inferred text for a path that is not found names the captures of the published path.

In a tree that compiles, take the last leaf of a path and method that has a response 404, and let
that response be an inferred one.  The operation then has at 404 the text that lists, in the order
of the path and between backticks, the names that the published path gives to those captures whose
type in the leaf is not that of plain texts.  This needs that the names of the captures at the path
can be coded. -/
theorem compile_inferred_notFound (c : Catalog) (t : Tree) (info : Info) (servers : List Server)
    (compiled : Compiled) (h : compile c t info servers = .ok compiled) :
    ∃ p ls s, t.Folds c p ls s ∧ compiled.document.paths = p.paths ∧
      ∀ k m i l, LastWith ls k m "404" i l → l.route.endpoint.declares "404" = false →
        (∀ l' ∈ ls, l'.key = k → ∀ n ∈ l'.captures, Codable n) →
        ∃ first e op, (ls.map Leaf.route).find? (·.key = k) = some first ∧
          Table.find? p k = some e ∧ e.display = first.display ∧
          e.captures = captureNames first.qualifiers ∧ e.operations.find? m = some op ∧
          op.responses.find? "404" = some
            { description :=
                orList (fallible e.captures l.route.captureTypes) ++ " not found" } := by
  obtain ⟨p, ls, s, hfolds, hpaths⟩ := exists_folds h
  refine ⟨p, ls, s, hfolds, hpaths, fun k m i l hl hsilent hcodable => ?_⟩
  have hp := hfolds.summarizes.2
  obtain ⟨x, op, r, hx, hop, hr, hresponse⟩ := hfolds.find?_responses hl
  obtain ⟨e, he, hop⟩ := Option.bind_eq_some_iff.1 hop
  obtain ⟨first, hfirst, hdisplay, hcaptures⟩ := hp.exists_first he
  refine ⟨first, e, op, hfirst, he, hdisplay, hcaptures, hop, ?_⟩
  obtain ⟨y, hy, hroute⟩ := hfolds.exists_passage hl.here
  obtain rfl := Option.some.inj (hx.symm.trans hy)
  have hkey : x.route.key = k := hroute ▸ hl.key
  have hnames : ∀ r ∈ (t.passages []).map (·.route), r.key = x.route.key →
      (captureNames r.qualifiers).Nodup ∧ ∀ n ∈ captureNames r.qualifiers, Codable n := by
    rw [hfolds.map_route_passages, hkey]
    intro r hr hk
    obtain ⟨l', hl', rfl⟩ := List.mem_map.1 hr
    exact ⟨(hfolds.wellFormed l' hl').spelled.nodup_names, hcodable l' hl' hk⟩
  have hmem := List.mem_of_getElem? hx
  have hcalled := Tree.map_called_captureNames hmem fun r hr hk => (hnames r hr hk).1
  rw [hfolds.map_route_passages, hkey, ← hp.names_eq, Partial.names, he] at hcalled
  have hanswers := hfolds.answers l (List.mem_of_getElem? hl.here) "404"
  rw [hr] at hanswers
  cases hanswers with
  | declared d content hd => simp [Endpoint.declares, hd] at hsilent
  | own content headers hd hs => simp [Endpoint.declares, hs] at hsilent
  | inferred text hd htext =>
      rw [← hroute] at htext ⊢
      rw [Route.eq_of_inferred?_notFound htext] at hresponse
      rw [hresponse, Passage.response, if_pos rfl,
        Tree.text_orList hmem hnames (fallible_subset _ _), map_fallible, hcalled]
      rfl

/-- Three operations on ways: the last one gives the names of the second in the other order, and
the first one has names of its own. -/
def waysRenamedTwice : Tree :=
  .alt (Tree.under (wayBetween "from" "to" .get).qualifiers
      (.leaf (wayBetween "from" "to" .get).endpoint)) <|
    .alt (Tree.under (wayBetween "start" "end" .post).qualifiers
        (.leaf (wayBetween "start" "end" .post).endpoint))
      (Tree.under (wayBetween "end" "start" .put).qualifiers
        (.leaf (wayBetween "end" "start" .put).endpoint))

/-- What the last operation calls `start` is called `end` first, and then `to`. -/
theorem waysRenamedTwice_notFound : ∃ p ls s e op, waysRenamedTwice.Folds [] p ls s ∧
    Table.find? p (wayBetween "from" "to" .get).key = some e ∧ e.captures = ["from", "to"] ∧
    e.operations.find? .put = some op ∧
    op.responses.find? "404" = some { description := "\x60to\x60 not found" } := by
  have hok : (compile [] waysRenamedTwice {} []).toOption.isSome = true := by decide +kernel
  obtain ⟨compiled, hcompiled⟩ := isSome_toOption_iff.1 hok
  obtain ⟨p, ls, s, hfolds, -, hresponse⟩ :=
    compile_inferred_notFound [] waysRenamedTwice {} [] compiled hcompiled
  obtain ⟨l, hroute, hl⟩ := hfolds.exists_lastWith_of_last [_, _] rfl "404" rfl
  have hroutes : ls.map Leaf.route = [wayBetween "from" "to" .get, wayBetween "start" "end" .post,
      wayBetween "end" "start" .put] := (Except.ok.inj hfolds.flatten).symm
  have hcodable : ∀ r ∈ ls.map Leaf.route, ∀ n ∈ captureNames r.qualifiers, Codable n := by
    rw [hroutes]
    decide
  obtain ⟨first, e, op, hfirst, he, -, hcaptures, hop, htext⟩ :=
    hresponse _ _ _ l hl (by rw [hroute]; rfl) fun l' hl' _ =>
      hcodable _ (List.mem_map_of_mem hl')
  rw [hroutes] at hfirst
  obtain rfl := Option.some.inj hfirst
  refine ⟨p, ls, s, e, op, hfolds, he, hcaptures, hop, htext.trans ?_⟩
  have hdescription : orList (fallible e.captures l.route.captureTypes) ++ " not found" =
      "\x60to\x60 not found" := by
    rw [hcaptures, hroute]
    decide +kernel
  rw [hdescription]

end ApiTree
