import ApiTree.Proofs.Compilation.Operations
import ApiTree.Selection.Basic
import Mathlib.Data.List.TakeWhile

/-!
# ApiTree.Proofs.Selection.Embedding

What a selection finds.  `Embeds` says that the routes of a pattern stand in a
target in order, at places that may repeat.  The search takes the first place that
is left for each route of the pattern; any other embedding stands at the same
places or further on, so nothing is missed.

* `select_iff_embeds` — a selection is made exactly when there is an embedding, its
  keys are the same for every embedding, and else the first route is reported up to
  which there is none.
-/

namespace ApiTree

/-- Places of some targets at which the routes of a pattern stand, in order. -/
structure Embeds (targets pattern : List Route) (places : List Nat) : Prop where
  ordered : places.Pairwise (· ≤ ·)
  stand : List.Forall₂ (fun i p => ∃ q, targets[i]? = some q ∧ q.same p = true) places pattern

/-- The key of the operation of a route, as the targets spell its path. -/
def spelledKey (targets : List Route) (r : Route) : OperationKey :=
  ⟨spelling targets r.key, r.endpoint.method.name⟩

/-! ## equal routes -/

theorem Qualifier.pathPart?_eq_of_same {a b : Qualifier} (h : a.same b = true) :
    a.pathPart? = b.pathPart? := by
  cases a <;> cases b <;> simp_all [Qualifier.same, pathPart?]

/-- Qualifiers that are the same one by one give the same path. -/
theorem pathKey_eq_of_agree {as bs : List Qualifier} (h : agree Qualifier.same as bs = true) :
    pathKey as = pathKey bs := by
  induction as generalizing bs with
  | nil => cases bs <;> simp_all [agree]
  | cons a as ih =>
      cases bs with
      | nil => simp [agree] at h
      | cons b bs =>
          obtain ⟨hab, hrest⟩ := Bool.and_eq_true_iff.1 h
          rw [pathKey, pathKey, List.filterMap_cons, List.filterMap_cons,
            Qualifier.pathPart?_eq_of_same hab, show as.filterMap _ = bs.filterMap _ from ih hrest]

namespace Route

variable {r s : Route}

theorem key_eq_of_same (h : r.same s = true) : r.key = s.key :=
  pathKey_eq_of_agree (Bool.and_eq_true_iff.1 h).1

theorem method_eq_of_same (h : r.same s = true) : r.endpoint.method = s.endpoint.method := by
  have he : r.endpoint.same s.endpoint = true := (Bool.and_eq_true_iff.1 h).2
  simp only [Endpoint.same, Bool.and_eq_true, beq_iff_eq] at he
  exact he.1.1.1.1.1.1.1.1

end Route

theorem spelledKey_eq_of_same {targets : List Route} {r s : Route} (h : r.same s = true) :
    spelledKey targets r = spelledKey targets s := by
  rw [spelledKey, spelledKey, r.key_eq_of_same h, r.method_eq_of_same h]

/-- A route of the targets has the key that a selection gives to it. -/
theorem keyOf_eq_spelledKey {targets : List Route} {r : Route} (h : r ∈ targets) :
    Selection.keyOf targets r = spelledKey targets r := by
  have hfind : (fun t : Route => t.key == r.key) = fun t => decide (t.key = r.key) := by
    funext t
    exact Bool.eq_iff_iff.2 (by rw [beq_iff_eq, decide_eq_true_iff])
  obtain ⟨first, hfirst⟩ : ∃ first, targets.find? (fun t => t.key == r.key) = some first :=
    Option.isSome_iff_exists.1 (List.find?_isSome.2 ⟨r, h, beq_self_eq_true r.key⟩)
  rw [Selection.keyOf, Selection.spelling, hfirst, spelledKey, spelling, ← hfind, hfirst]
  rfl

/-! ## embeddings -/

namespace Embeds

variable {targets pattern : List Route} {places : List Nat} {p : Route}

theorem nil : Embeds targets [] [] := ⟨.nil, .nil⟩

/-- The first route stands somewhere, and the others there or further on. -/
theorem exists_of_cons (h : Embeds targets (p :: pattern) places) :
    ∃ i is q, places = i :: is ∧ targets[i]? = some q ∧ q.same p = true ∧
      Embeds targets pattern is ∧ ∀ j ∈ is, i ≤ j := by
  obtain ⟨hordered, hstand⟩ := h
  cases hstand with
  | cons hfirst hrest =>
      obtain ⟨q, hq, hsame⟩ := hfirst
      obtain ⟨hle, hordered⟩ := List.pairwise_cons.1 hordered
      exact ⟨_, _, q, rfl, hq, hsame, ⟨hordered, hrest⟩, hle⟩

theorem cons {i : Nat} {q : Route} (hq : targets[i]? = some q) (hsame : q.same p = true)
    (h : Embeds targets pattern places) (hle : ∀ j ∈ places, i ≤ j) :
    Embeds targets (p :: pattern) (i :: places) :=
  ⟨List.pairwise_cons.2 ⟨hle, h.ordered⟩, .cons ⟨q, hq, hsame⟩ h.stand⟩

/-- What stands in order still does without what comes last. -/
theorem exists_of_append {more : List Route} (h : Embeds targets (pattern ++ more) places) :
    ∃ is, Embeds targets pattern is := by
  induction pattern generalizing places with
  | nil => exact ⟨[], nil⟩
  | cons p pattern ih =>
      obtain ⟨i, is, q, -, hq, hsame, hrest, hle⟩ := h.exists_of_cons
      refine ⟨(i :: is).take (pattern.length + 1), ?_⟩
      obtain ⟨hordered, hstand⟩ := cons hq hsame hrest hle
      refine ⟨hordered.sublist (List.take_sublist _ _), ?_⟩
      have htake := List.forall₂_take (pattern.length + 1) hstand
      simpa using htake

/-- Whatever stands at the places has the keys of the pattern. -/
theorem map_spelledKey (h : Embeds targets pattern places) :
    (places.filterMap (targets[·]?)).map (spelledKey targets) =
      pattern.map (spelledKey targets) := by
  induction pattern generalizing places with
  | nil =>
      cases h.stand
      rfl
  | cons p pattern ih =>
      obtain ⟨i, is, q, rfl, hq, hsame, hrest, -⟩ := h.exists_of_cons
      rw [List.filterMap_cons, hq, List.map_cons, List.map_cons, ih hrest,
        spelledKey_eq_of_same hsame]

end Embeds

/-! ## the search -/

namespace Selection

variable {targets pattern found : List Route} {p : Route} {k : Nat}

/-- The search goes on to the first place that is left and at which the route
stands, or to the end. -/
theorem exists_seek (p : Route) (targets : List Route) (k : Nat) :
    ∃ i, k ≤ i ∧ seek p (targets.drop k) = targets.drop i ∧
      (∀ q, targets[i]? = some q → q.same p = true) ∧
      ∀ j q, k ≤ j → targets[j]? = some q → q.same p = true → i ≤ j := by
  have hseek : seek p (targets.drop k) =
      (targets.drop k).drop ((targets.drop k).findIdx fun q => q.same p) := by
    rw [seek, List.dropWhile_eq_drop_findIdx_not]
    simp
  refine ⟨k + (targets.drop k).findIdx fun q => q.same p, Nat.le_add_right _ _, ?_, ?_, ?_⟩
  · rw [hseek, List.drop_drop]
  · intro q hq
    rw [← List.getElem?_drop] at hq
    obtain ⟨hlt, rfl⟩ := List.getElem?_eq_some_iff.1 hq
    exact List.findIdx_getElem (p := fun q : Route => q.same p) (w := hlt)
  · intro j q hj hq hsame
    obtain ⟨d, rfl⟩ := Nat.exists_eq_add_of_le hj
    rw [← List.getElem?_drop] at hq
    obtain ⟨hlt, rfl⟩ := List.getElem?_eq_some_iff.1 hq
    have hnot : ¬ d < (targets.drop k).findIdx fun q => q.same p := by
      intro hd
      have hother := List.not_of_lt_findIdx hd
      rw [hsame] at hother
      cases hother
    omega

/-- One round of the search. -/
theorem embed_cons (targets : List Route) (k : Nat) (p : Route) (pattern : List Route) :
    (∃ i q, k ≤ i ∧ targets[i]? = some q ∧ q.same p = true ∧
        (∀ j q, k ≤ j → targets[j]? = some q → q.same p = true → i ≤ j) ∧
        embed targets (targets.drop k) (p :: pattern) =
          (embed targets (targets.drop i) pattern).map (q :: ·)) ∨
      ((∀ j q, k ≤ j → targets[j]? = some q → q.same p = false) ∧
        embed targets (targets.drop k) (p :: pattern) =
          .error ⟨p.title, if (seek p targets).isEmpty then .notInTarget else .outOfOrder⟩) := by
  obtain ⟨i, hki, hseek, hhere, hfirst⟩ := exists_seek p targets k
  cases hi : targets[i]? with
  | none =>
      have hend : targets.drop i = [] := List.drop_eq_nil_of_le (List.getElem?_eq_none_iff.1 hi)
      refine .inr ⟨fun j q hj hq => ?_, by rw [embed, hseek, hend]⟩
      by_contra hsame
      have hle := hfirst j q hj hq (by simpa using hsame)
      have hlt := (List.getElem?_eq_some_iff.1 hq).1
      have hge := List.getElem?_eq_none_iff.1 hi
      omega
  | some q =>
      refine .inl ⟨i, q, hki, hi, hhere q hi, hfirst, ?_⟩
      obtain ⟨hlt, rfl⟩ := List.getElem?_eq_some_iff.1 hi
      rw [embed, hseek, List.drop_eq_getElem_cons hlt]
      dsimp only
      rw [← List.drop_eq_getElem_cons hlt]
      cases embed targets (targets.drop i) pattern <;> rfl

/-- What the search finds is an embedding. -/
theorem embeds_of_embed (h : embed targets (targets.drop k) pattern = .ok found) :
    ∃ places, Embeds targets pattern places ∧ (∀ i ∈ places, k ≤ i) ∧
      found = places.filterMap (targets[·]?) := by
  induction pattern generalizing k found with
  | nil =>
      rw [embed] at h
      obtain rfl := Except.ok.inj h
      exact ⟨[], .nil, by simp, rfl⟩
  | cons p pattern ih =>
      rcases embed_cons targets k p pattern with ⟨i, q, hki, hq, hsame, -, he⟩ | ⟨-, he⟩
      · rw [he] at h
        cases hmore : embed targets (targets.drop i) pattern with
        | error conflict =>
            rw [hmore] at h
            cases h
        | ok more =>
            rw [hmore] at h
            obtain rfl := Except.ok.inj h
            obtain ⟨places, hplaces, hle, rfl⟩ := ih hmore
            refine ⟨i :: places, .cons hq hsame hplaces hle, fun j hj => ?_, by simp [hq]⟩
            rcases List.mem_cons.1 hj with rfl | hj
            · exact hki
            · exact hki.trans (hle j hj)
      · rw [he] at h
        cases h

/-- The search finds something if there is an embedding.  It takes no place further
on than the embedding does, so the rest of the embedding is left to it. -/
theorem exists_embed {places : List Nat} (h : Embeds targets pattern places)
    (hk : ∀ i ∈ places, k ≤ i) : ∃ found, embed targets (targets.drop k) pattern = .ok found := by
  induction pattern generalizing k places with
  | nil => exact ⟨[], rfl⟩
  | cons p pattern ih =>
      obtain ⟨j, js, q, rfl, hq, hsame, hrest, hle⟩ := h.exists_of_cons
      have hkj : k ≤ j := hk j List.mem_cons_self
      rcases embed_cons targets k p pattern with ⟨i, q', -, -, -, hfirst, he⟩ | ⟨hnone, -⟩
      · have hij : i ≤ j := hfirst j q hkj hq hsame
        obtain ⟨more, hmore⟩ := ih hrest fun l hl => hij.trans (hle l hl)
        exact ⟨q' :: more, by rw [he, hmore]; rfl⟩
      · simp [hnone j q hkj hq] at hsame

/-- The search gives up at a route that does not follow those before it. -/
theorem exists_of_embed_error {conflict : Conflict}
    (h : embed targets (targets.drop k) pattern = .error conflict) :
    ∃ before p after, pattern = before ++ p :: after ∧
      (∃ found, embed targets (targets.drop k) before = .ok found) ∧
      (∃ conflict, embed targets (targets.drop k) (before ++ [p]) = .error conflict) ∧
      conflict = ⟨p.title, if (seek p targets).isEmpty then .notInTarget else .outOfOrder⟩ := by
  induction pattern generalizing k with
  | nil => simp [embed] at h
  | cons p pattern ih =>
      rcases embed_cons targets k p pattern with ⟨i, q, hki, hq, hsame, hfirst, he⟩ | ⟨hnone, he⟩
      · have hfound : ∀ ps, embed targets (targets.drop k) (p :: ps) =
            (embed targets (targets.drop i) ps).map (q :: ·) := by
          intro ps
          rcases embed_cons targets k p ps with
            ⟨i', q', hki', hq', hsame', hfirst', he'⟩ | ⟨hnot, -⟩
          · obtain rfl : i' = i :=
              (hfirst' i q hki hq hsame).antisymm (hfirst i' q' hki' hq' hsame')
            obtain rfl : q = q' := Option.some.inj (hq.symm.trans hq')
            exact he'
          · simp [hnot i q hki hq] at hsame
        cases hmore : embed targets (targets.drop i) pattern with
        | ok more =>
            rw [he, hmore] at h
            cases h
        | error conflict' =>
            rw [he, hmore] at h
            obtain rfl := Except.error.inj h
            obtain ⟨before, p', after, rfl, ⟨found, hbefore⟩, ⟨other, hlast⟩, hconflict⟩ := ih hmore
            refine ⟨p :: before, p', after, rfl, ⟨q :: found, ?_⟩, ⟨other, ?_⟩, hconflict⟩
            · rw [hfound, hbefore]
              rfl
            · rw [List.cons_append, hfound, hlast]
              rfl
      · rw [he] at h
        refine ⟨[], p, pattern, rfl, ⟨[], rfl⟩, ?_, (Except.error.inj h).symm⟩
        rcases embed_cons targets k p [] with ⟨i, q, hki, hq, hsame, -⟩ | ⟨-, he'⟩
        · simp [hnone i q hki hq] at hsame
        · exact ⟨_, he'⟩

/-- A route that the search gives up at is out of order if it stands anywhere. -/
theorem outOfOrder_iff (p : Route) (targets : List Route) :
    (if (seek p targets).isEmpty then ConflictCause.notInTarget else .outOfOrder) = .outOfOrder ↔
      ∃ q ∈ targets, q.same p = true := by
  have hempty : (seek p targets).isEmpty = true ↔ ∀ q ∈ targets, q.same p = false := by
    simp [seek, List.isEmpty_iff, List.dropWhile_eq_nil_iff]
  have hsome : ¬ (seek p targets).isEmpty = true ↔ ∃ q ∈ targets, q.same p = true := by
    simp [hempty]
  rw [← hsome]
  cases (seek p targets).isEmpty <;> simp

end Selection

open Selection

/-- The search from the start of the targets succeeds exactly if there is an
embedding. -/
theorem exists_embed_iff (targets pattern : List Route) :
    (∃ found, embed targets targets pattern = .ok found) ↔
      ∃ places, Embeds targets pattern places := by
  constructor
  · rintro ⟨found, h⟩
    obtain ⟨places, hplaces, -⟩ := embeds_of_embed (k := 0) h
    exact ⟨places, hplaces⟩
  · rintro ⟨places, h⟩
    exact exists_embed (k := 0) h (by simp)

/-- The keys of what is found are those of the routes that were sought. -/
theorem keys_of_embed {targets pattern found : List Route}
    (h : embed targets targets pattern = .ok found) :
    Selection.keys targets found = (pattern.map (spelledKey targets)).eraseDups := by
  obtain ⟨places, hplaces, -, rfl⟩ := embeds_of_embed (k := 0) h
  rw [Selection.keys, ← hplaces.map_spelledKey]
  refine congrArg List.eraseDups (List.map_congr_left fun r hr => keyOf_eq_spelledKey ?_)
  obtain ⟨i, -, hi⟩ := List.mem_filterMap.1 hr
  exact List.mem_of_getElem? hi

/-- A search that gives up does so at the first route up to which there is no embedding. -/
theorem exists_first_of_embed_error {targets pattern : List Route} {conflict : Conflict}
    (h : embed targets targets pattern = .error conflict) :
    ∃ before p after, pattern = before ++ p :: after ∧
      (∀ part, part <+: before → ∃ places, Embeds targets part places) ∧
      (¬ ∃ places, Embeds targets (before ++ [p]) places) ∧
      conflict = ⟨p.title, if (seek p targets).isEmpty then .notInTarget else .outOfOrder⟩ := by
  obtain ⟨before, p, after, rfl, hbefore, ⟨other, hlast⟩, rfl⟩ := exists_of_embed_error (k := 0) h
  rw [List.drop_zero] at hbefore hlast
  refine ⟨before, p, after, rfl, ?_, ?_, rfl⟩
  · rintro part ⟨more, rfl⟩
    obtain ⟨places, hplaces⟩ := (exists_embed_iff targets (part ++ more)).1 hbefore
    exact hplaces.exists_of_append
  · rw [← exists_embed_iff, hlast]
    rintro ⟨found, hfound⟩
    cases hfound

section Select

variable {pattern tree : Tree} {wanted targets : List Route}

/-- A selection has the keys of the places of an embedding. -/
theorem select_of_embed_ok (hp : pattern.flatten = .ok wanted) (ht : tree.flatten = .ok targets)
    {found : List Route} (h : embed targets targets wanted = .ok found) :
    select pattern tree = .ok (Selection.keys targets found) := by
  rw [select, ht, hp]
  simp only [bind, Except.bind, h]
  rfl

/-- Without an embedding there is no selection. -/
theorem select_of_embed_error (hp : pattern.flatten = .ok wanted)
    (ht : tree.flatten = .ok targets) {conflict : Conflict}
    (h : embed targets targets wanted = .error conflict) :
    select pattern tree = .error (.conflict conflict) := by
  rw [select, ht, hp]
  simp only [bind, Except.bind, h]
  rfl

end Select

/-- The operations that a pattern denotes in a tree.

A selection is made exactly when the routes of the pattern stand in order among those
of the tree.  Its keys are those of the routes of the pattern as the tree spells their
paths, each once; and whichever places the pattern is found at, they are the keys of
what stands there.  Else the first route of the pattern is reported that does not
follow those before it, as out of order if it stands anywhere in the tree. -/
theorem select_iff_embeds (pattern tree : Tree) (wanted targets : List Route)
    (hp : pattern.flatten = .ok wanted) (ht : tree.flatten = .ok targets) :
    ((∃ keys, select pattern tree = .ok keys) ↔ ∃ places, Embeds targets wanted places) ∧
    (∀ places, Embeds targets wanted places →
      select pattern tree = .ok (wanted.map (spelledKey targets)).eraseDups ∧
      select pattern tree =
        .ok ((places.filterMap (targets[·]?)).map (spelledKey targets)).eraseDups) ∧
    ((¬ ∃ places, Embeds targets wanted places) →
      ∃ before p after cause, wanted = before ++ p :: after ∧
        (∀ part, part <+: before → ∃ places, Embeds targets part places) ∧
        (¬ ∃ places, Embeds targets (before ++ [p]) places) ∧
        select pattern tree = .error (.conflict ⟨p.title, cause⟩) ∧
        (cause = .outOfOrder ∨ cause = .notInTarget) ∧
        (cause = .outOfOrder ↔ ∃ q ∈ targets, q.same p = true)) := by
  refine ⟨?_, fun places hplaces => ?_, fun hnone => ?_⟩
  · rw [← exists_embed_iff]
    cases hembed : embed targets targets wanted with
    | ok found => simp [select_of_embed_ok hp ht hembed]
    | error conflict => simp [select_of_embed_error hp ht hembed]
  · obtain ⟨found, hfound⟩ := (exists_embed_iff targets wanted).2 ⟨places, hplaces⟩
    have hok : select pattern tree = .ok (wanted.map (spelledKey targets)).eraseDups := by
      rw [select_of_embed_ok hp ht hfound, keys_of_embed hfound]
    exact ⟨hok, hplaces.map_spelledKey ▸ hok⟩
  · cases hembed : embed targets targets wanted with
    | ok found => exact absurd ((exists_embed_iff targets wanted).1 ⟨found, hembed⟩) hnone
    | error conflict =>
        obtain ⟨before, p, after, rfl, hbefore, hlast, rfl⟩ := exists_first_of_embed_error hembed
        refine ⟨before, p, after, _, rfl, hbefore, hlast, select_of_embed_error hp ht hembed,
          ?_, outOfOrder_iff p targets⟩
        split <;> simp

/-- All users. -/
def listUsers : Route := ⟨[.segment "users"], { method := .get }⟩

/-- A user, found or changed by its number. -/
def oneUser (capture : String) (m : Method) : Route :=
  ⟨[.segment "users", .capture capture (.scalar .int) none], { method := m }⟩

/-- The tree of a route. -/
def Route.tree (r : Route) : Tree := .under r.qualifiers (.leaf r.endpoint)

/-- Users, whose number is spelled in two ways. -/
def usersTree : Tree :=
  .alt listUsers.tree (.alt (oneUser "id" .get).tree (oneUser "user_id" .put).tree)

/-- A change of a user is selected under the first spelling of its path; it is out of
order before the list of users. -/
theorem usersTree_select :
    select (.alt listUsers.tree (oneUser "user_id" .put).tree) usersTree =
      .ok [⟨"/users", "get"⟩, ⟨"/users/\x7bid\x7d", "put"⟩] ∧
    select (.alt (oneUser "user_id" .put).tree listUsers.tree) usersTree =
      .error (.conflict ⟨"GET /users", .outOfOrder⟩) := by
  have htargets : usersTree.flatten =
      .ok [listUsers, oneUser "id" .get, oneUser "user_id" .put] := rfl
  constructor
  · obtain ⟨-, hkeys, -⟩ := select_iff_embeds (.alt listUsers.tree (oneUser "user_id" .put).tree)
      usersTree [listUsers, oneUser "user_id" .put] _ rfl htargets
    have hplaces : Embeds [listUsers, oneUser "id" .get, oneUser "user_id" .put]
        [listUsers, oneUser "user_id" .put] [0, 2] :=
      ⟨by decide, .cons ⟨_, rfl, by decide⟩ (.cons ⟨_, rfl, by decide⟩ .nil)⟩
    rw [(hkeys [0, 2] hplaces).1]
    exact congrArg Except.ok (by decide +kernel)
  · obtain ⟨hiff, -, hconflict⟩ := select_iff_embeds
      (.alt (oneUser "user_id" .put).tree listUsers.tree)
      usersTree [oneUser "user_id" .put, listUsers] _ rfl htargets
    have hfails : (select (.alt (oneUser "user_id" .put).tree listUsers.tree)
        usersTree).toOption = none := by decide +kernel
    have hnone : ¬ ∃ places, Embeds [listUsers, oneUser "id" .get, oneUser "user_id" .put]
        [oneUser "user_id" .put, listUsers] places := fun h => by
      obtain ⟨keys, hkeys⟩ := hiff.2 h
      rw [hkeys] at hfails
      cases hfails
    obtain ⟨before, p, after, cause, hwanted, -, hlast, herror, -, horder⟩ := hconflict hnone
    rcases before with _ | ⟨b, _ | ⟨b', before⟩⟩
    · obtain ⟨rfl, -⟩ := List.cons.inj hwanted
      exact absurd ⟨[2], by decide, .cons ⟨_, rfl, by decide⟩ .nil⟩ hlast
    · obtain ⟨-, hrest⟩ := List.cons.inj hwanted
      obtain ⟨rfl, -⟩ := List.cons.inj hrest
      obtain rfl := horder.2 ⟨listUsers, by simp, by decide⟩
      rw [herror, show listUsers.title = "GET /users" by decide +kernel]
    · simp at hwanted

end ApiTree
