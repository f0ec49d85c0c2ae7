import ApiTree.Proofs.Selection.Update

/-!
# ApiTree.Proofs.Selection.Coverage

What the check of a selection covers.  The check looks keys up with their methods in lower case,
while an update takes a method as it is written, and a copy of a path item that an earlier key has
changed.  So a key can pass the check and stop the update when its turn comes: a method in other
than lower case is no member of a path item, and a path item may have lost a member that its copies
need.  The keys before it have been changed by then (`run_applyOverM_of_stop`).

* `applyOverM_outcomes` — what comes of a selection, whatever its keys are.
* `applyOver_ok_iff` — a change of operations goes through exactly if all keys have one and are in
  lower case.
-/

namespace ApiTree
namespace Document

open PathItem (Member)

section Lookup

variable [PathItem.Base] {d : Document} {k : OperationKey} {item : PathItem} {name : String}

/-- A name leads to a member of a path item, or is none of its names. -/
theorem lookup_cases (item : PathItem) (name : String) :
    (∃ x, item.lookup name = .ok x) ∨ item.lookup name = .error (.noMember "PathItem" name) := by
  rw [PathItem.lookup]
  split
  · exact .inl ⟨_, rfl⟩
  · split
    · exact .inl ⟨_, rfl⟩
    · exact .inr rfl

/-- Only the names of methods lead to operations. -/
theorem exact_of_lookup {op : Operation} (h : item.lookup k.method = .ok (.operation op)) :
    k.Exact := by
  by_contra hk
  rw [PathItem.lookup, OperationKey.ofName?_eq_none hk] at h
  dsimp only at h
  split at h
  · next x hx =>
      obtain rfl := Except.ok.inj h
      rw [PathItem.common?] at hx
      split at hx
      · cases hx
      · obtain ⟨kind, -, hx⟩ := Option.map_eq_some_iff.1 hx
        cases kind <;> cases hx
  · cases h

/-- A key is found, or leads to nothing, or its method is no member of path items. -/
theorem operation_cases (d : Document) (k : OperationKey) :
    d.Finds k ∨ d.operation k.path k.method = .ok .absent ∨
      d.operation k.path k.method = .error (.noMember "PathItem" (Case.lower k.method)) := by
  rw [Finds, operation]
  cases d.paths.find? k.path with
  | none => exact .inr (.inl rfl)
  | some item =>
      rcases lookup_cases item (Case.lower k.method) with ⟨x, hx⟩ | herror
      · by_cases habsent : x = .absent
        · exact .inr (.inl (habsent ▸ hx))
        · exact .inl ⟨x, hx, habsent⟩
      · exact .inr (.inr herror)

theorem Finds.exists_item (h : d.Finds k) : ∃ item, d.paths.find? k.path = some item := by
  obtain ⟨x, hx, hne⟩ := h
  rw [operation] at hx
  split at hx
  · exact absurd (Except.ok.inj hx).symm hne
  · next item hitem => exact ⟨item, hitem⟩

/-- A key that is found leads to a member as it is written, or its method is written as none. -/
theorem lookupAt_cases (h : d.Finds k) : (∃ x, lookupAt d.paths k = .ok x) ∨
    lookupAt d.paths k = .error (.noMember "PathItem" k.method) := by
  obtain ⟨item, hitem⟩ := h.exists_item
  rw [lookupAt, hitem]
  exact lookup_cases item k.method

/-- A key in lower case leads to what is found for it. -/
theorem lookupAt_eq_operation (h : d.Finds k) (hlower : Case.lower k.method = k.method) :
    lookupAt d.paths k = d.operation k.path k.method := by
  obtain ⟨item, hitem⟩ := h.exists_item
  rw [lookupAt, operation, hitem, hlower]

/-- A key in lower case that leads to something is found. -/
theorem finds_of_lookupAt {x : Member} (h : lookupAt d.paths k = .ok x) (hne : x ≠ .absent)
    (hlower : Case.lower k.method = k.method) : d.Finds k := by
  obtain ⟨item, hitem, hx⟩ := exists_item_of_lookupAt h
  refine ⟨x, ?_, hne⟩
  rw [operation, hitem, hlower]
  exact hx

end Lookup

/-! ## where a run of changes stops -/

theorem not_mem_of_nodup_append_cons {α : Type} {a : α} {l l' : List α}
    (h : (l ++ a :: l').Nodup) : a ∉ l :=
  fun hmem => (List.nodup_append.1 h).2.2 a hmem a List.mem_cons_self rfl

section Changes

variable [PathItem.Base] {d : Document} {k : OperationKey} {before keys : List OperationKey}
  {xs : List Member} {x : Member}

theorem changes_nil (d : Document) : d.Changes [] [] := ⟨rfl, .nil⟩

/-- One more key can be changed if it leads to a member and none of the keys before stops it. -/
theorem changes_concat_iff : d.Changes (before ++ [k]) (xs ++ [x]) ↔
    d.Changes before xs ∧ lookupAt d.paths k = .ok x ∧
      ∀ b ∈ before, b.path = k.path → b.hindrance? = none := by
  constructor
  · rintro ⟨hfound, hfree⟩
    rw [List.map_append, List.map_append] at hfound
    obtain ⟨hbefore, hk⟩ := List.append_inj' hfound rfl
    obtain ⟨hfree, -, hlast⟩ := List.pairwise_append.1 hfree
    exact ⟨⟨hbefore, hfree⟩, List.head_eq_of_cons_eq hk, fun b hb => hlast b hb k (by simp)⟩
  · rintro ⟨⟨hfound, hfree⟩, hk, hlast⟩
    refine ⟨by simp [hfound, hk], List.pairwise_append.2 ⟨hfree, List.pairwise_singleton _ _, ?_⟩⟩
    simpa using hlast

/-- A key in lower case that is found has an operation. -/
theorem Finds.has (h : d.Finds k) (hk : k.Exact) : d.Has k := by
  obtain ⟨x, hx, hne⟩ := h
  rw [operation_eq_operationAt d hk] at hx
  obtain rfl := Except.ok.inj hx
  rw [has_iff_operationAt d hk]
  exact Option.ne_none_iff_exists'.1 fun hnone => hne (by rw [hnone, Member.ofOperation_none])

/-- Changes of keys that differ update a document at those of them that are in lower case. -/
theorem updated_of_finds (hfinds : ∀ k ∈ keys, d.Finds k) (hn : keys.Nodup)
    {changed : List Operation} (hlength : changed.length = keys.length)
    {edits : List (OperationKey × Operation)}
    (hedits : edits = (keys.zip changed).filter (·.1.Exact)) :
    d.Updated (edits.map Prod.fst) (edits.map Prod.snd)
      { d with paths := setOperations d.paths (keys.zip changed) } := by
  have hfst : (keys.zip changed).map Prod.fst = keys := List.map_fst_zip hlength.ge
  have hexact : ∀ e ∈ edits, e.1.Exact := fun e he => by
    rw [hedits, List.mem_filter] at he
    simpa using he.2
  have hkeys : (edits.map Prod.fst).Sublist keys := by
    rw [hedits]
    nth_rewrite 2 [← hfst]
    exact List.filter_sublist.map Prod.fst
  rw [← setOperations_filter, ← hedits]
  exact updated_setOperations hexact
    (fun e he => (hfinds e.1 (hkeys.subset (List.mem_map_of_mem he))).has (hexact e he))
    (hn.sublist hkeys)

/-- Keys can all be changed, or there is a first one that cannot. -/
theorem changes_or_stop (d : Document) (keys : List OperationKey) :
    (∃ xs, d.Changes keys xs) ∨ ∃ before k after xs, keys = before ++ k :: after ∧
      d.Changes before xs ∧ ∀ x, ¬ d.Changes (before ++ [k]) (xs ++ [x]) := by
  induction keys using List.reverseRecOn with
  | nil => exact .inl ⟨[], changes_nil d⟩
  | append_singleton keys k ih =>
      rcases ih with ⟨xs, hxs⟩ | ⟨before, k', after, xs, rfl, hxs, hstop⟩
      · by_cases hmore : ∃ x, d.Changes (keys ++ [k]) (xs ++ [x])
        · obtain ⟨x, hx⟩ := hmore
          exact .inl ⟨_, hx⟩
        · exact .inr ⟨keys, k, [], xs, rfl, hxs, not_exists.1 hmore⟩
      · exact .inr ⟨before, k', after ++ [k], xs, by simp, hxs, hstop⟩

/-- What stops a key after others: it is written as no member, or one of them stands in its way. -/
theorem stop_cases (hk : d.Finds k) (hxs : d.Changes before xs)
    (hstop : ∀ x, ¬ d.Changes (before ++ [k]) (xs ++ [x])) :
    lookupAt d.paths k = .error (.noMember "PathItem" k.method) ∨
      ∃ x fault, lookupAt d.paths k = .ok x ∧
        (before.findSome? fun b => if b.path = k.path then b.hindrance? else none) =
          some fault := by
  rcases lookupAt_cases hk with ⟨x, hx⟩ | herror
  · refine .inr ?_
    cases hsome : before.findSome? fun b => if b.path = k.path then b.hindrance? else none with
    | some fault => exact ⟨x, fault, hx, rfl⟩
    | none =>
        refine absurd (changes_concat_iff.2 ⟨hxs, hx, fun b hb hpath => ?_⟩) (hstop x)
        have hb := List.findSome?_eq_none_iff.1 hsome b hb
        rwa [if_pos hpath] at hb
  · exact .inl herror

end Changes

section Run

variable [PathItem.Base] {m : Type → Type} [Monad m] [LawfulMonad m] {d : Document}
  {k : OperationKey} {selection before after : List OperationKey} {xs : List Member}
  {fault : Fault}

omit [PathItem.Base] in
/-- What follows upon actions for the members of a list is given a list of the same length. -/
theorem mapM_bind_congr {α β γ : Type} {l : List α} {f : α → m β} {g h : List β → m γ}
    (hgh : ∀ ys, ys.length = l.length → g ys = h ys) : l.mapM f >>= g = l.mapM f >>= h := by
  induction l generalizing g h with
  | nil => simpa using hgh [] rfl
  | cons a l ih =>
      simp only [List.mapM_cons, bind_assoc, pure_bind]
      exact bind_congr fun y => ih fun ys hys => hgh (y :: ys) (congrArg (· + 1) hys)

/-- Where all keys are found, those in front of one are changed before it stops the update. -/
theorem run_applyOverM_of_stop (hfinds : ∀ b ∈ selection, d.Finds b)
    (hkeys : selection.eraseDups = before ++ k :: after) (hxs : d.Changes before xs)
    (f : Member → m Operation) {α : Type} {a : m α}
    (hturn : ∀ changed, changed.length = before.length →
      (changeAt f ((before.zip changed).foldl Changing.after { paths := d.paths }) k).run =
        a >>= fun _ => pure (.error fault)) :
    (d.applyOverM selection f).run =
      xs.mapM f >>= fun _ => a >>= fun _ => pure (.error fault) := by
  have hcheck : d.checkSelected (before ++ k :: after) = .ok () :=
    checkSelected_eq_ok fun b hb => hfinds b (List.mem_eraseDups.1 (hkeys ▸ hb))
  have hn : before.Nodup := (List.nodup_append.1 (hkeys ▸ nodup_eraseDups selection)).1
  simp only [applyOverM, hkeys, hcheck, liftM_ok, List.foldlM_append, List.foldlM_cons, pure_bind,
    bind_assoc, ExceptT.run_bind, hxs.run hn f]
  refine mapM_bind_congr fun changed hchanged => ?_
  have hlength : changed.length = before.length := by
    simpa [hchanged] using (congrArg List.length hxs.found).symm
  simp only [hturn changed hlength, bind_assoc, pure_bind]

/-- A key that is written as no member stops the update in its turn. -/
theorem run_applyOverM_of_no_member (hfinds : ∀ b ∈ selection, d.Finds b)
    (hkeys : selection.eraseDups = before ++ k :: after) (hxs : d.Changes before xs)
    (hk : lookupAt d.paths k = .error fault) (f : Member → m Operation) :
    (d.applyOverM selection f).run = xs.mapM f >>= fun _ => pure (.error fault) := by
  have hmem : k ∉ before := not_mem_of_nodup_append_cons (hkeys ▸ nodup_eraseDups selection)
  refine (run_applyOverM_of_stop hfinds hkeys hxs f fun changed hlength => ?_).trans
    (bind_congr fun _ => pure_bind () _)
  rw [pure_bind]
  refine run_changeAt_of_error ?_ f
  rw [Changing.paths_foldl_after, lookupAt_setOperations_of_notMem, hk]
  rwa [List.map_fst_zip hlength.ge]

/-- A key that an earlier one stands in the way of stops the update after its action. -/
theorem run_applyOverM_of_hindrance (hfinds : ∀ b ∈ selection, d.Finds b)
    (hkeys : selection.eraseDups = before ++ k :: after) (hxs : d.Changes before xs) {x : Member}
    (hk : lookupAt d.paths k = .ok x)
    (hstop : (before.findSome? fun b => if b.path = k.path then b.hindrance? else none) =
      some fault) (f : Member → m Operation) :
    (d.applyOverM selection f).run = (xs ++ [x]).mapM f >>= fun _ => pure (.error fault) := by
  have hmem : k ∉ before := not_mem_of_nodup_append_cons (hkeys ▸ nodup_eraseDups selection)
  have hrun : (d.applyOverM selection f).run =
      xs.mapM f >>= fun _ => f x >>= fun _ => pure (.error fault) := by
    refine run_applyOverM_of_stop hfinds hkeys hxs f fun changed hlength => ?_
    have hfst : (before.zip changed).map Prod.fst = before := List.map_fst_zip hlength.ge
    refine run_changeAt_of_hindrance ?_ ?_ f
    · rw [Changing.paths_foldl_after, lookupAt_setOperations_of_notMem (by rwa [hfst]), hk]
    · rw [Changing.hindrance?_foldl_after, hfst, hstop]
      rfl
  simpa only [List.mapM_append, List.mapM_cons, List.mapM_nil, bind_assoc, pure_bind] using hrun

/-- The first key that is not found is reported before anything is changed. -/
theorem run_applyOverM_of_not_finds (hbefore : ∀ b ∈ before, d.Finds b) (hk : ¬ d.Finds k)
    (f : Member → m Operation) :
    d.operation k.path k.method = .ok .absent ∧
        (d.applyOverM (before ++ k :: after) f).run =
          pure (.error (.conflict ⟨k.title, .notInDocument⟩)) ∨
      d.operation k.path k.method = .error (.noMember "PathItem" (Case.lower k.method)) ∧
        (d.applyOverM (before ++ k :: after) f).run =
          pure (.error (.noMember "PathItem" (Case.lower k.method))) := by
  obtain ⟨after', hkeys⟩ := eraseDups_append_cons (fun hmem => hk (hbefore k hmem)) after
  have hrun {fault : Fault} (hfault : d.checkSelected [k] = .error fault) :
      (d.applyOverM (before ++ k :: after) f).run = pure (.error fault) := by
    refine run_applyOverM_of_error ?_ f
    rw [hkeys]
    exact checkSelected_append_cons (fun b hb => hbefore b (List.mem_eraseDups.1 hb)) hfault
  rcases operation_cases d k with hfinds | habsent | hnone
  · exact absurd hfinds hk
  · exact .inl ⟨habsent, hrun (checkSelected_of_absent habsent)⟩
  · refine .inr ⟨hnone, hrun ?_⟩
    rw [checkSelected, hnone]
    rfl

/-- What comes of a selection of keys with any methods.

If some keys are not found, the first of these is reported, and nothing is changed: as a conflict
if the document has nothing there, and as no member if its method is none.  Let all keys be found.
If all can be changed, as they are written and one after the other, the action is run once for each
on what the key leads to, which for a key in lower case is what was found for it; and the outcome
has what the action has made of operations in their places.  But if there is a first key that
cannot be changed, the action has been run for the keys in front of it when it is reported: a key
whose method is written as no member before the action is run for it, and a key at a path whose
copies one of the keys in front of it has spoilt after that. -/
theorem applyOverM_outcomes (d : Document) (selection : List OperationKey)
    (f : Member → m Operation) :
    (∀ before k after, selection = before ++ k :: after → (∀ b ∈ before, d.Finds b) →
      ¬ d.Finds k →
      d.operation k.path k.method = .ok .absent ∧
          (d.applyOverM selection f).run =
            pure (.error (.conflict ⟨k.title, .notInDocument⟩)) ∨
        d.operation k.path k.method = .error (.noMember "PathItem" (Case.lower k.method)) ∧
          (d.applyOverM selection f).run =
            pure (.error (.noMember "PathItem" (Case.lower k.method)))) ∧
    ((∀ k ∈ selection, d.Finds k) →
      (∀ xs, d.Changes selection.eraseDups xs →
        (∀ k ∈ selection, Case.lower k.method = k.method →
          lookupAt d.paths k = d.operation k.path k.method) ∧
        ∃ result : List Operation → Document,
          (∀ changed, changed.length = xs.length →
            ∀ edits, edits = (selection.eraseDups.zip changed).filter (·.1.Exact) →
              d.Updated (edits.map Prod.fst) (edits.map Prod.snd) (result changed)) ∧
          (d.applyOverM selection f).run =
            xs.mapM f >>= fun changed => pure (.ok (result changed))) ∧
      ∀ before k after xs, selection.eraseDups = before ++ k :: after → d.Changes before xs →
        (∀ x, ¬ d.Changes (before ++ [k]) (xs ++ [x])) →
        (lookupAt d.paths k = .error (.noMember "PathItem" k.method) ∧
            (d.applyOverM selection f).run =
              xs.mapM f >>= fun _ => pure (.error (.noMember "PathItem" k.method))) ∨
          ∃ x fault, lookupAt d.paths k = .ok x ∧
            (before.findSome? fun b => if b.path = k.path then b.hindrance? else none) =
              some fault ∧
            (d.applyOverM selection f).run =
              (xs ++ [x]).mapM f >>= fun _ => pure (.error fault)) := by
  refine ⟨?_, fun hfinds => ⟨fun xs hxs => ⟨fun k hk => lookupAt_eq_operation (hfinds k hk), ?_⟩,
    fun before k after xs hkeys hxs hstop => ?_⟩⟩
  · rintro before k after rfl hbefore hk
    exact run_applyOverM_of_not_finds hbefore hk f
  · have hcheck := checkSelected_eq_ok fun k hk => hfinds k (List.mem_eraseDups.1 hk)
    refine ⟨_, ?_, run_applyOverM_of_ok hcheck hxs f⟩
    intro changed hlength edits hedits
    have hkeys : xs.length = selection.eraseDups.length := by
      simpa using (congrArg List.length hxs.found).symm
    exact updated_of_finds (fun k hk => hfinds k (List.mem_eraseDups.1 hk))
      (nodup_eraseDups selection) (hlength.trans hkeys) hedits
  · have hk : d.Finds k := hfinds k (List.mem_eraseDups.1 (by simp [hkeys]))
    rcases stop_cases hk hxs hstop with herror | ⟨x, fault, hx, hfault⟩
    · exact .inl ⟨herror, run_applyOverM_of_no_member hfinds hkeys hxs herror f⟩
    · exact .inr ⟨x, fault, hx, hfault, run_applyOverM_of_hindrance hfinds hkeys hxs hx hfault f⟩

end Run

/-- A key in capitals is found, and stops the update after the key in front of it; a key that names
no member stops it before.  What all path items have can be changed too, and may be needed for a
change that comes later. -/
theorem usersDocument_in_capitals :
    letI : PathItem.Base := .documented
    usersDocument.Has ⟨"/users", "GET"⟩ ∧
      (usersDocument.applyOverM [⟨"/users", "put"⟩, ⟨"/users", "GET"⟩] noteSummary).run [] =
        (.error (.noMember "PathItem" "GET"), [some "Change."]) ∧
      (usersDocument.applyOverM [⟨"/users", "put"⟩, ⟨"/users", "FIND"⟩] noteSummary).run [] =
        (.error (.noMember "PathItem" "find"), []) ∧
      (∃ d', (usersDocument.applyOverM [⟨"/users", "operations"⟩, ⟨"/users", "put"⟩]
          noteSummary).run [] = (.ok d', [some "operations", some "Change."]) ∧
        usersDocument.Updated [⟨"/users", "put"⟩] [{}] d') ∧
      (usersDocument.applyOverM [⟨"/users", "with_operation"⟩, ⟨"/users", "put"⟩]
        noteSummary).run [] =
        (.error (.notCallable "Operation"), [some "with_operation", some "Change."]) := by
  let _ : PathItem.Base := .documented
  have hput : (⟨"/users", "put"⟩ : OperationKey).Exact := ⟨.put, rfl⟩
  have hchange : operationAt usersDocument.paths ⟨"/users", "put"⟩ =
      some { summary := some "Change." } := rfl
  have hfind : usersDocument.Has ⟨"/users", "GET"⟩ := by
    refine ⟨{ summary := some "Find." }, ?_⟩
    rw [operation, show Case.lower "GET" = "get" by decide +kernel]
    rfl
  have hfinds : usersDocument.Finds ⟨"/users", "put"⟩ :=
    ((has_iff_operationAt usersDocument hput).2 ⟨_, hchange⟩).finds
  have hops : [⟨"/users", "put"⟩].map (operationAt usersDocument.paths) =
      [{ summary := some "Change." }].map some := congrArg (· :: []) hchange
  have hfirst : usersDocument.Changes [⟨"/users", "put"⟩]
      [.operation { summary := some "Change." }] := changes_of_operationAt (by simp [hput]) hops
  refine ⟨hfind, ?_, ?_, ?_, ?_⟩
  · obtain ⟨-, houtcome⟩ := applyOverM_outcomes usersDocument
      [⟨"/users", "put"⟩, ⟨"/users", "GET"⟩] noteSummary
    obtain ⟨-, hstop⟩ := houtcome (by simp [hfinds, hfind.finds])
    have hmember : lookupAt usersDocument.paths ⟨"/users", "GET"⟩ =
        .error (.noMember "PathItem" "GET") := rfl
    have hnot (x : Member) : ¬ usersDocument.Changes ([⟨"/users", "put"⟩] ++ [⟨"/users", "GET"⟩])
        ([.operation { summary := some "Change." }] ++ [x]) := by
      rw [changes_concat_iff, hmember]
      simp
    rcases hstop [_] ⟨"/users", "GET"⟩ [] _ (by decide) hfirst hnot with
      ⟨-, hrun⟩ | ⟨x, fault, hx, -⟩
    · exact congrFun hrun []
    · rw [hmember] at hx
      cases hx
  · obtain ⟨hrefused, -⟩ := applyOverM_outcomes usersDocument
      [⟨"/users", "put"⟩, ⟨"/users", "FIND"⟩] noteSummary
    have hlower : Case.lower "FIND" = "find" := by decide +kernel
    have hnone : usersDocument.operation "/users" "FIND" =
        .error (.noMember "PathItem" "find") := by
      rw [operation, hlower]
      rfl
    have hnot : ¬ usersDocument.Finds ⟨"/users", "FIND"⟩ := by
      rintro ⟨x, hx, -⟩
      simp [hnone] at hx
    rcases hrefused [_] _ [] rfl (by simpa using hfinds) hnot with ⟨habsent, -⟩ | ⟨-, hrun⟩
    · simp [hnone] at habsent
    · rw [hlower] at hrun
      exact congrFun hrun []
  · obtain ⟨-, houtcome⟩ := applyOverM_outcomes usersDocument
      [⟨"/users", "operations"⟩, ⟨"/users", "put"⟩] noteSummary
    have hcommon : usersDocument.Finds ⟨"/users", "operations"⟩ :=
      finds_of_lookupAt (x := .common "operations" "method") rfl (by simp) (by decide +kernel)
    obtain ⟨hgoes, -⟩ := houtcome (by simp [hfinds, hcommon])
    have hkeys : List.eraseDups [(⟨"/users", "operations"⟩ : OperationKey), ⟨"/users", "put"⟩] =
        [⟨"/users", "operations"⟩] ++ [⟨"/users", "put"⟩] := by decide
    rw [hkeys] at hgoes
    obtain ⟨-, result, hresult, hrun⟩ := hgoes
      ([.common "operations" "method"] ++ [.operation { summary := some "Change." }])
      (changes_concat_iff.2 ⟨⟨rfl, List.pairwise_singleton _ _⟩, lookupAt_of_operationAt hchange,
        fun b hb _ => List.mem_singleton.1 hb ▸ rfl⟩)
    exact ⟨_, congrFun hrun [], hresult [{}, {}] rfl [(⟨"/users", "put"⟩, {})] rfl⟩
  · obtain ⟨-, houtcome⟩ := applyOverM_outcomes usersDocument
      [⟨"/users", "with_operation"⟩, ⟨"/users", "put"⟩] noteSummary
    have hcommon : usersDocument.Finds ⟨"/users", "with_operation"⟩ :=
      finds_of_lookupAt (x := .common "with_operation" "method") rfl (by simp) (by decide +kernel)
    obtain ⟨-, hstop⟩ := houtcome (by simp [hfinds, hcommon])
    have hspoilt : (⟨"/users", "with_operation"⟩ : OperationKey).hindrance? =
      some (.notCallable "Operation") := rfl
    have hnot (x : Member) :
        ¬ usersDocument.Changes ([⟨"/users", "with_operation"⟩] ++ [⟨"/users", "put"⟩])
          ([.common "with_operation" "method"] ++ [x]) := by
      rw [changes_concat_iff]
      simp [hspoilt]
    rcases hstop [_] ⟨"/users", "put"⟩ [] _ (by decide) ⟨rfl, List.pairwise_singleton _ _⟩ hnot with
      ⟨herror, -⟩ | ⟨x, fault, hx, hfault, hrun⟩
    · rw [lookupAt_of_operationAt hchange] at herror
      cases herror
    · rw [lookupAt_of_operationAt hchange] at hx
      obtain rfl := Except.ok.inj hx
      obtain rfl : .notCallable "Operation" = fault := Option.some.inj hfault
      exact congrFun hrun []

/-- A list with a member that is out of line has a first one. -/
theorem exists_first_not {α : Type} {p : α → Prop} {l : List α} (h : ¬ ∀ a ∈ l, p a) :
    ∃ before a after, l = before ++ a :: after ∧ (∀ b ∈ before, p b) ∧ ¬ p a := by
  classical
  obtain ⟨a, ha⟩ : ∃ a, l.find? (fun a => !decide (p a)) = some a := by
    rw [← Option.isSome_iff_exists, List.find?_isSome]
    simpa using h
  obtain ⟨hp, before, after, rfl, hbefore⟩ := List.find?_eq_some_iff_append.1 ha
  exact ⟨before, a, after, rfl, by simpa using hbefore, by simpa using hp⟩

/-- Changes of operations that go through are made to operations. -/
theorem exists_operation_of_mapM {f : Operation → Operation} {xs : List Member}
    {changed : List Operation}
    (h : xs.mapM (fun x => return f (← toChange x)) = (.ok changed : Except Fault _)) {x : Member}
    (hx : x ∈ xs) : ∃ op, x = .operation op := by
  induction xs generalizing changed with
  | nil => simp at hx
  | cons y xs ih =>
      rw [List.mapM_cons] at h
      obtain ⟨_, hy, h⟩ := bind_eq_ok_iff.1 h
      obtain ⟨rest, hrest, -⟩ := bind_eq_ok_iff.1 h
      rcases List.mem_cons.1 hx with rfl | hx
      · cases x with
        | operation op => exact ⟨op, rfl⟩
        | absent => cases hy
        | common name kind => cases hy
      · exact ih hrest hx

/-- A change of operations goes through exactly if all keys have an operation and name their methods
in lower case. -/
theorem applyOver_ok_iff [PathItem.Base] (d : Document) (selection : List OperationKey)
    (f : Operation → Operation) :
    (∃ d', d.applyOver selection f = .ok d') ↔ ∀ k ∈ selection, d.Has k ∧ k.Exact := by
  have hmonad : d.applyOver selection f =
      (d.applyOverM selection fun x => return f (← toChange x)).run >>= id := by rfl
  constructor
  · rintro ⟨d', hd'⟩
    rw [hmonad] at hd'
    have hno {fault : Fault} {α : Type} {a : Except Fault α}
        (hrun : (d.applyOverM selection fun x => return f (← toChange x)).run =
          a >>= fun _ => pure (.error fault)) : False := by
      rw [hrun] at hd'
      cases a <;> cases hd'
    have hfinds : ∀ k ∈ selection, d.Finds k := by
      by_contra hnot
      obtain ⟨before, k, after, rfl, hbefore, hk⟩ := exists_first_not hnot
      rcases run_applyOverM_of_not_finds hbefore hk
        fun x => (return f (← toChange x) : Except Fault Operation) with
        ⟨-, hrun⟩ | ⟨-, hrun⟩ <;>
      exact hno (a := pure ()) hrun
    rcases changes_or_stop d selection.eraseDups with
      ⟨xs, hxs⟩ | ⟨before, k, after, xs, hkeys, hxs, hstop⟩
    · have hcheck := checkSelected_eq_ok fun k hk => hfinds k (List.mem_eraseDups.1 hk)
      rw [run_applyOverM_of_ok hcheck hxs, bind_assoc] at hd'
      obtain ⟨changed, hchanged, -⟩ := bind_eq_ok_iff.1 hd'
      intro k hk
      have hfound : lookupAt d.paths k ∈ xs.map Except.ok :=
        hxs.found ▸ List.mem_map_of_mem (List.mem_eraseDups.2 hk)
      obtain ⟨x, hx, hlookup⟩ := List.mem_map.1 hfound
      obtain ⟨op, rfl⟩ := exists_operation_of_mapM hchanged hx
      obtain ⟨item, -, hitem⟩ := exists_item_of_lookupAt hlookup.symm
      have hexact := exact_of_lookup hitem
      exact ⟨(hfinds k hk).has hexact, hexact⟩
    · have hk : d.Finds k := hfinds k (List.mem_eraseDups.1 (by simp [hkeys]))
      rcases stop_cases hk hxs hstop with herror | ⟨x, fault, hx, hfault⟩
      · exact (hno (run_applyOverM_of_no_member hfinds hkeys hxs herror _)).elim
      · exact (hno (run_applyOverM_of_hindrance hfinds hkeys hxs hx hfault _)).elim
  · intro h
    obtain ⟨-, d', -, hrun, -⟩ := applyOver_updated d selection (fun k hk => (h k hk).2)
      (fun k hk => (h k hk).1) f
    exact ⟨d', hrun⟩

end Document
end ApiTree
