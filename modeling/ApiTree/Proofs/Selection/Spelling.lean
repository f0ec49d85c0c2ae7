import ApiTree.Proofs.Selection.Embedding

/-!
# ApiTree.Proofs.Selection.Spelling

A selection and the compiler spell paths alike.  The selection looks for the first spelling of a
path among the routes of the target; the compiler keeps the spelling of the left side at every
merge.  Both are that of the first route, since merged entries summarize the leaves in the order
of the routes.

* `select_spelled_as_folded` — every route that is found stands in the fold, under its path, with
  the display and the method of the key that names it.
-/

namespace ApiTree

section Fold

variable {p : Partial} {ls : List Leaf}

/-- The entry of a route has its method, and the display that its key is spelled with. -/
theorem exists_entry_of_route (hp : p.Summarizes ls) {r : Route}
    (hr : r ∈ ls.map Leaf.route) :
    ∃ entry op, Table.find? p r.key = some entry ∧
      spelledKey (ls.map Leaf.route) r = ⟨entry.display, r.endpoint.method.name⟩ ∧
      entry.operations.find? r.endpoint.method = some op := by
  obtain ⟨op, hop⟩ := (exists_operationAt_iff hp r.key r.endpoint.method).2 ⟨r, hr, rfl, rfl⟩
  obtain ⟨entry, hentry, hfound⟩ := Option.bind_eq_some_iff.1 hop
  refine ⟨entry, op, hentry, ?_, hfound⟩
  rw [spelledKey, spelling_of_summarizes hp hentry]

end Fold

/-- A selection that is made is that of what the search finds. -/
theorem exists_embed_of_select {pattern tree : Tree} {keys : List OperationKey}
    (h : select pattern tree = .ok keys) :
    ∃ targets wanted found, tree.flatten = .ok targets ∧ pattern.flatten = .ok wanted ∧
      Selection.embed targets targets wanted = .ok found ∧
      keys = Selection.keys targets found := by
  obtain ⟨targets, htargets, h⟩ := bind_eq_ok_iff.1 h
  obtain ⟨wanted, hwanted, h⟩ := bind_eq_ok_iff.1 h
  refine ⟨targets, wanted, ?_⟩
  cases hfound : Selection.embed targets targets wanted with
  | ok found =>
      rw [hfound] at h
      exact ⟨found, htargets, hwanted, rfl, (Except.ok.inj h).symm⟩
  | error conflict =>
      rw [hfound] at h
      cases h

/-- Whatever places a pattern is found at in a tree that compiles, the keys of the selection are
those of the routes there, each once; and each of these routes has an entry in the fold under its
path, which is displayed as the key of the route says and has an operation for its method. -/
theorem select_spelled_as_folded (c : Catalog) (pattern tree : Tree) (info : Info)
    (servers : List Server) (compiled : Compiled) (keys : List OperationKey)
    (hcompiled : compile c tree info servers = .ok compiled)
    (hselected : select pattern tree = .ok keys) :
    ∃ p events s targets wanted,
      (tree.fold c []).run {} = .ok ((p, events), s) ∧
      tree.flatten = .ok targets ∧ pattern.flatten = .ok wanted ∧
      (∃ places, Embeds targets wanted places) ∧
      ∀ places, Embeds targets wanted places →
        keys = ((places.filterMap (targets[·]?)).map (spelledKey targets)).eraseDups ∧
        ∀ r ∈ places.filterMap (targets[·]?), ∃ entry op,
          Table.find? p r.key = some entry ∧
          spelledKey targets r = ⟨entry.display, r.endpoint.method.name⟩ ∧
          entry.operations.find? r.endpoint.method = some op := by
  obtain ⟨⟨⟨p, events⟩, s⟩, hfold, -⟩ := bind_eq_ok_iff.1 hcompiled
  obtain ⟨targets, ls, htargets, hls, -, hp⟩ := Tree.fold_summarizes hfold
  obtain ⟨rfl, -⟩ := wellFormed_of_leaves hls
  obtain ⟨_, wanted, found, htargets', hwanted, hfound, rfl⟩ := exists_embed_of_select hselected
  obtain rfl := Except.ok.inj (htargets.symm.trans htargets')
  refine ⟨p, events, s, _, wanted, hfold, htargets, hwanted,
    (exists_embed_iff _ wanted).1 ⟨found, hfound⟩, fun places hplaces => ⟨?_, fun r hr => ?_⟩⟩
  · rw [keys_of_embed hfound, hplaces.map_spelledKey]
  · obtain ⟨i, -, hi⟩ := List.mem_filterMap.1 hr
    exact exists_entry_of_route hp (List.mem_of_getElem? hi)

/-- The change of a user is named as the compiler spells it, after the route by which a user is
found. -/
theorem usersTree_spelled_as_folded :
    ∃ compiled p events s entry op,
      compile [] usersTree {} [] = .ok compiled ∧
      select (oneUser "user_id" .put).tree usersTree = .ok [⟨"/users/\x7bid\x7d", "put"⟩] ∧
      (usersTree.fold [] []).run {} = .ok ((p, events), s) ∧
      Table.find? p (oneUser "user_id" .put).key = some entry ∧
      entry.display = "/users/\x7bid\x7d" ∧ entry.operations.find? .put = some op := by
  have hok : (compile [] usersTree {} []).toOption.isSome = true := by decide +kernel
  obtain ⟨compiled, hcompiled⟩ := Option.isSome_iff_exists.1 hok
  have hcompiled := toOption_eq_some_iff.1 hcompiled
  have hselected : select (oneUser "user_id" .put).tree usersTree =
      .ok [⟨"/users/\x7bid\x7d", "put"⟩] :=
    toOption_eq_some_iff.1 (by decide +kernel)
  obtain ⟨p, events, s, targets, wanted, hfold, htargets, hwanted, -, hfound⟩ :=
    select_spelled_as_folded [] _ _ {} [] compiled _ hcompiled hselected
  obtain rfl : targets = [listUsers, oneUser "id" .get, oneUser "user_id" .put] :=
    (Except.ok.inj htargets).symm
  obtain rfl : wanted = [oneUser "user_id" .put] := (Except.ok.inj hwanted).symm
  have hplaces : Embeds [listUsers, oneUser "id" .get, oneUser "user_id" .put]
      [oneUser "user_id" .put] [2] := ⟨by decide, .cons ⟨_, rfl, by decide⟩ .nil⟩
  obtain ⟨entry, op, hentry, hkey, hop⟩ :=
    (hfound [2] hplaces).2 (oneUser "user_id" .put) List.mem_cons_self
  have hdisplay : "/users/\x7bid\x7d" = entry.display := by
    refine Eq.trans ?_ (congrArg OperationKey.path hkey)
    decide +kernel
  exact ⟨compiled, p, events, s, entry, op, hcompiled, hselected, hfold, hentry, hdisplay.symm, hop⟩

end ApiTree
