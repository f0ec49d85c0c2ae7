import ApiTree.Proofs.Merge.Agreement

/-!
# ApiTree.Proofs.Merge.Spelling

Spelling the captures of an operation anew.  `Operation.respelled` gives the
captures new names by their places in the path.  What a merge does is different:
it replaces names by a table of old and new ones, and does so again when the
result is merged further out.  Where the old names are distinct, both come to the
same (`Operation.muted_renameCaptures`), apart from the text of the response for a path
that is not found.

Agreement looks at places alone, so it does not notice a new spelling
(`Operation.respelled_agrees_iff`).
-/

namespace ApiTree

/-- The parameter under another name. -/
def Parameter.called (p : Parameter) (name : String) : Parameter := { p with name }

/-- Parameters whose captures take the given names, one after the other. -/
def respelled : List String → List Parameter → List Parameter
  | _, [] => []
  | names, p :: ps =>
    if p.location == "path" then p.called (names.headD p.name) :: respelled names.tail ps
    else p :: respelled names ps

/-- A capture takes the first of the names. -/
theorem respelled_cons_of_path {p : Parameter} (h : p.location = "path") (names : List String)
    (ps : List Parameter) :
    respelled names (p :: ps) = p.called (names.headD p.name) :: respelled names.tail ps := by
  simp [respelled, h]

/-- What is no capture keeps its name. -/
theorem respelled_cons_of_ne {p : Parameter} (h : p.location ≠ "path") (names : List String)
    (ps : List Parameter) : respelled names (p :: ps) = p :: respelled names ps := by
  simp [respelled, h]

theorem captured_cons_of_path {p : Parameter} (h : p.location = "path") (ps : List Parameter) :
    captured (p :: ps) = p :: captured ps := by simp [captured, h]

theorem captured_cons_of_ne {p : Parameter} (h : p.location ≠ "path") (ps : List Parameter) :
    captured (p :: ps) = captured ps := by simp [captured, h]

theorem sought_cons_of_path {p : Parameter} (h : p.location = "path") (ps : List Parameter) :
    sought (p :: ps) = sought ps := by simp [sought, h]

theorem sought_cons_of_ne {p : Parameter} (h : p.location ≠ "path") (ps : List Parameter) :
    sought (p :: ps) = p :: sought ps := by simp [sought, h]

/-! ## what a new spelling keeps -/

/-- What is said of a parameter apart from its name. -/
def Parameter.unnamed (p : Parameter) : Parameter := { p with name := "" }

@[simp] theorem sought_respelled (names : List String) (ps : List Parameter) :
    sought (respelled names ps) = sought ps := by
  induction ps generalizing names with
  | nil => rfl
  | cons p ps ih =>
      by_cases h : p.location = "path"
      · have hcalled : (p.called (names.headD p.name)).location = "path" := h
        rw [respelled_cons_of_path h, sought_cons_of_path hcalled, sought_cons_of_path h, ih]
      · rw [respelled_cons_of_ne h, sought_cons_of_ne h, sought_cons_of_ne h, ih]

/-- The first capture takes the first of the names. -/
theorem captured_respelled_cons {p : Parameter} (h : p.location = "path") (names : List String)
    (ps : List Parameter) :
    captured (respelled names (p :: ps)) =
      p.called (names.headD p.name) :: captured (respelled names.tail ps) := by
  have hcalled : (p.called (names.headD p.name)).location = "path" := h
  rw [respelled_cons_of_path h, captured_cons_of_path hcalled]

@[simp] theorem unnamed_captured_respelled (names : List String) (ps : List Parameter) :
    (captured (respelled names ps)).map Parameter.unnamed =
      (captured ps).map Parameter.unnamed := by
  induction ps generalizing names with
  | nil => rfl
  | cons p ps ih =>
      by_cases h : p.location = "path"
      · rw [captured_respelled_cons h, captured_cons_of_path h, List.map_cons, List.map_cons, ih]
        rfl
      · rw [respelled_cons_of_ne h, captured_cons_of_ne h, captured_cons_of_ne h, ih]

theorem length_captured_respelled (names : List String) (ps : List Parameter) :
    (captured (respelled names ps)).length = (captured ps).length := by
  have h := congrArg List.length (unnamed_captured_respelled names ps)
  rwa [List.length_map, List.length_map] at h

/-- A capture that comes out of a new spelling differs from the one that went in
by its name alone. -/
theorem exists_of_getElem?_respelled {names : List String} {ps : List Parameter} {i : Nat}
    {p : Parameter} (h : (captured (respelled names ps))[i]? = some p) :
    ∃ q, (captured ps)[i]? = some q ∧ q.schema = p.schema ∧ q.required = p.required := by
  have hi := congrArg (·[i]?) (unnamed_captured_respelled names ps)
  simp only [List.getElem?_map, h, Option.map_some] at hi
  obtain ⟨q, hq, hqp⟩ := Option.map_eq_some_iff.1 hi.symm
  have hschema : q.unnamed.schema = p.unnamed.schema := by rw [hqp]
  have hrequired : q.unnamed.required = p.unnamed.required := by rw [hqp]
  exact ⟨q, hq, hschema, hrequired⟩

/-- Captures that are respelled have the given names. -/
theorem names_respelled {names : List String} {ps : List Parameter}
    (h : (captured ps).length = names.length) :
    (captured (respelled names ps)).map (·.name) = names := by
  induction ps generalizing names with
  | nil => exact (List.length_eq_zero_iff.1 h.symm).symm
  | cons p ps ih =>
      by_cases hloc : p.location = "path"
      · rw [captured_cons_of_path hloc] at h
        cases names with
        | nil => simp at h
        | cons name names =>
            rw [captured_respelled_cons hloc, List.map_cons, List.tail_cons, ih (by simpa using h)]
            rfl
      · rw [captured_cons_of_ne hloc] at h
        rw [respelled_cons_of_ne hloc, captured_cons_of_ne hloc, ih h]

/-- A second spelling makes the first one forgotten. -/
theorem respelled_respelled {names : List String} {ps : List Parameter} (old : List String)
    (h : (captured ps).length = names.length) :
    respelled names (respelled old ps) = respelled names ps := by
  induction ps generalizing names old with
  | nil => rfl
  | cons p ps ih =>
      by_cases hloc : p.location = "path"
      · rw [captured_cons_of_path hloc] at h
        cases names with
        | nil => simp at h
        | cons name names =>
            have hcalled : (p.called (old.headD p.name)).location = "path" := hloc
            rw [respelled_cons_of_path hloc old, respelled_cons_of_path hcalled,
              respelled_cons_of_path hloc, List.tail_cons, ih _ (by simpa using h)]
            rfl
      · rw [captured_cons_of_ne hloc] at h
        rw [respelled_cons_of_ne hloc, respelled_cons_of_ne hloc, respelled_cons_of_ne hloc, ih _ h]

/-- Keys repeat in a list of parameters only within the path or beside it. -/
theorem nodup_keys_iff (ps : List Parameter) :
    (ps.map Parameter.key).Nodup ↔
      ((captured ps).map Parameter.key).Nodup ∧ ((sought ps).map Parameter.key).Nodup := by
  have hperm : (captured ps ++ sought ps).Perm ps := by
    have h := List.filter_append_perm (fun p : Parameter => p.location == "path") ps
    simpa [captured, sought, bne] using h
  rw [← (hperm.map Parameter.key).nodup_iff, List.map_append, List.nodup_append]
  refine ⟨fun h => ⟨h.1, h.2.1⟩, fun h => ⟨h.1, h.2, ?_⟩⟩
  intro k hk l hl hkl
  obtain ⟨p, hp, rfl⟩ := List.mem_map.1 hk
  obtain ⟨q, hq, rfl⟩ := List.mem_map.1 hl
  have hlocation : p.location = q.location := congrArg Prod.fst hkl
  exact (mem_sought.1 hq).2 (hlocation.symm.trans (mem_captured.1 hp).2)

/-- Captures that are respelled are spelled by the given names. -/
theorem spelledBy_respelled {old names : List String} {ps : List Parameter}
    (h : SpelledBy old ps) (hn : names.Nodup) (hlen : names.length = old.length) :
    SpelledBy names (respelled names ps) := by
  have hnames : (captured (respelled names ps)).map (·.name) = names :=
    names_respelled (by rw [h.length_captured, hlen])
  refine ⟨hnames, ?_, ?_⟩
  · rw [nodup_keys_iff, sought_respelled, keys_captured, hnames]
    exact ⟨hn.map (Prod.mk_right_injective _), ((nodup_keys_iff ps).1 h.keys).2⟩
  · intro p hp
    obtain ⟨i, hi⟩ := List.mem_iff_getElem?.1 hp
    obtain ⟨q, hq, -, hreq⟩ := exists_of_getElem?_respelled hi
    rw [← hreq]
    exact h.required q (List.mem_of_getElem? hq)

/-- Whether parameters can stand for each other does not depend on the names of captures. -/
theorem parametersAgree_respelled_iff (names : List String) (ps qs : List Parameter) :
    ParametersAgree (respelled names ps) qs ↔ ParametersAgree ps qs := by
  constructor <;> intro h
  · refine ⟨by simpa using h.keys, by simpa using h.alike, fun i p q hp hq => ?_⟩
    have hlt : i < (captured (respelled names ps)).length := by
      rw [length_captured_respelled]
      exact (List.getElem?_eq_some_iff.1 hp).1
    have hi := List.getElem?_eq_getElem hlt
    obtain ⟨p', hp', hschema, -⟩ := exists_of_getElem?_respelled hi
    obtain rfl : p' = p := Option.some.inj (hp'.symm.trans hp)
    rw [hschema]
    exact h.captures i _ q hi hq
  · refine ⟨by simpa using h.keys, by simpa using h.alike, fun i p q hp hq => ?_⟩
    obtain ⟨p', hp', hschema, -⟩ := exists_of_getElem?_respelled hp
    rw [← hschema]
    exact h.captures i p' q hp' hq

/-! ## replacing names by a table -/

/-- Renaming captures by a function is spelling them as the function does. -/
theorem map_rename_eq_respelled (f : String → String) (ps : List Parameter) :
    (ps.map fun p => if p.location == "path" then p.called (f p.name) else p) =
      respelled ((captured ps).map fun p => f p.name) ps := by
  induction ps with
  | nil => rfl
  | cons p ps ih =>
      by_cases h : p.location = "path"
      · rw [captured_cons_of_path h, List.map_cons, List.map_cons, respelled_cons_of_path h,
          List.tail_cons, ← ih, if_pos (by simpa using h)]
        rfl
      · rw [captured_cons_of_ne h, List.map_cons, respelled_cons_of_ne h, ← ih,
          if_neg (by simpa using h)]

/-- The name that a table of renames gives to a capture. -/
def renamed (renames : Table String String) (name : String) : String :=
  (renames.find? name).getD name

/-- The captures on the right that are spelled differently on the left. -/
def respellings (left right : List String) : List (String × String) :=
  (left.zip right).filterMap fun (ours, theirs) =>
    if ours == theirs then none else some (theirs, ours)

/-- Names that differ are one more renaming. -/
theorem respellings_cons (l r : String) (left right : List String) :
    respellings (l :: left) (r :: right) =
      if l = r then respellings left right else (r, l) :: respellings left right := by
  by_cases h : l = r <;> simp [respellings, h]

/-- Renamed are names of the right side, in their order. -/
theorem keys_respellings_sublist (left right : List String) :
    (Table.keys (respellings left right)).Sublist right := by
  induction left generalizing right with
  | nil => simp [respellings]
  | cons l left ih =>
      cases right with
      | nil => simp [respellings]
      | cons r right =>
          rw [respellings_cons]
          split
          · exact (ih right).cons r
          · exact (ih right).cons_cons r

/-- Distinct names are renamed place by place. -/
theorem map_renamed_respellings {left right : List String} (hlen : left.length = right.length)
    (hn : right.Nodup) : right.map (renamed (respellings left right)) = left := by
  induction left generalizing right with
  | nil => simpa using hlen.symm
  | cons l left ih =>
      cases right with
      | nil => simp at hlen
      | cons r right =>
          obtain ⟨hr, hn⟩ := List.nodup_cons.1 hn
          have htail : ∀ n ∈ right, renamed (respellings (l :: left) (r :: right)) n =
              renamed (respellings left right) n := by
            intro n hmem
            have hnr : ¬ n = r := fun h => hr (h ▸ hmem)
            rw [respellings_cons]
            split
            · rfl
            · simp [renamed, Table.find?_cons, hnr]
          have hhead : renamed (respellings (l :: left) (r :: right)) r = l := by
            rw [respellings_cons]
            split
            · next h =>
                have hnone : Table.find? (respellings left right) r = none :=
                  (Table.find?_eq_none_iff _ _).2 fun x =>
                    hr ((keys_respellings_sublist left right).mem x)
                simp [renamed, hnone, h]
            · simp [renamed, Table.find?_cons]
          rw [List.map_cons, hhead, List.map_congr_left htail, ih (by simpa using hlen) hn]

/-- The renaming between two spellings leads from the right one to the left one. -/
theorem map_renamed_renamesOf {left right : List String} (hlen : left.length = right.length)
    (hn : right.Nodup) : right.map (renamed (renamesOf left right)) = left := by
  have htable : renamesOf left right = respellings left right :=
    Table.ofList_of_nodup (hn.sublist (keys_respellings_sublist left right))
  rw [htable, map_renamed_respellings hlen hn]

/-! ## operations -/

namespace Operation

/-- The operation with its captures spelled by the given names. -/
def respelled (names : List String) (op : Operation) : Operation :=
  { op with parameters := ApiTree.respelled names op.parameters }

@[simp] theorem muted_respelled (names : List String) (op : Operation) :
    (op.respelled names).muted = op.muted.respelled names := rfl

@[simp] theorem united_respelled (names : List String) (a b : Operation) :
    (a.respelled names).united b = (a.united b).respelled names := rfl

/-- An operation with other names is proper exactly if the operation is. -/
theorem proper_respelled_iff (names : List String) (op : Operation) :
    (op.respelled names).Proper ↔ op.Proper :=
  ⟨fun h => ⟨h.responses, h.content⟩, fun h => ⟨h.responses, h.content⟩⟩

/-- Whether operations can stand for each other does not depend on the left one's names. -/
theorem respelled_agrees_iff (names : List String) (a b : Operation) :
    (a.respelled names).Agrees b ↔ a.Agrees b :=
  and_congr_left' (parametersAgree_respelled_iff names a.parameters b.parameters)

/-- Whether operations can stand for each other does not depend on the right one's names. -/
theorem agrees_respelled_iff (names : List String) (a b : Operation) :
    a.Agrees (b.respelled names) ↔ a.Agrees b := by
  rw [agrees_comm, respelled_agrees_iff, agrees_comm]

/-- The captures of a union are those of its first part. -/
theorem unitedAll_map_respelled (names : List String) {ops : List Operation} (hne : ops ≠ []) :
    unitedAll (ops.map (·.respelled names)) = (unitedAll ops).respelled names := by
  induction ops using List.reverseRecOn with
  | nil => exact absurd rfl hne
  | append_singleton ops x ih =>
      by_cases hops : ops = []
      · subst hops
        rfl
      · rw [List.map_append, List.map_singleton, unitedAll_append_singleton (by simpa using hops),
          ih hops, unitedAll_append_singleton hops]
        rfl

/-- Renaming by a table spells the captures of an operation as on the left. -/
theorem muted_renameCaptures {left right : List String} {op : Operation}
    (hlen : left.length = right.length) (h : SpelledBy right op.parameters) :
    (renameCaptures (renamesOf left right) op).muted = (op.respelled left).muted := by
  have hnames : (captured op.parameters).map
      (fun p => renamed (renamesOf left right) p.name) = left :=
    calc (captured op.parameters).map (fun p => renamed (renamesOf left right) p.name)
        = ((captured op.parameters).map (·.name)).map (renamed (renamesOf left right)) := by
          rw [List.map_map]; rfl
      _ = right.map (renamed (renamesOf left right)) := by rw [h.names]
      _ = left := map_renamed_renamesOf hlen h.nodup_names
  have hparameters := map_rename_eq_respelled (renamed (renamesOf left right)) op.parameters
  rw [hnames] at hparameters
  have hresponses : (renameCaptures (renamesOf left right) op).responses.mapValues mutedResponse =
      op.responses.mapValues mutedResponse := by
    simp only [renameCaptures, Table.mapValues, List.map_map]
    refine List.map_congr_left fun e _ => ?_
    by_cases hs : e.1 = "404" <;> simp [mutedResponse, hs]
  simp only [muted, hresponses]
  simp only [respelled, ← hparameters]
  rfl

/-- Names that are spelled on both sides alike are left as they are. -/
theorem respelled_of_spelledBy {names : List String} {op : Operation}
    (h : SpelledBy names op.parameters) : op.respelled names = op := by
  have hid := map_rename_eq_respelled id op.parameters
  rw [show (captured op.parameters).map (fun p => id p.name) = names from h.names] at hid
  have hsame : ∀ p : Parameter, (if p.location == "path" then p.called (id p.name) else p) = p := by
    intro p
    split <;> rfl
  rw [respelled, ← hid, List.map_congr_left fun p _ => hsame p, List.map_id']

end Operation

/-- A right entry is spelled as the left one operation by operation. -/
theorem PathEntry.exists_spelledAs {left right : PathEntry}
    (hlen : left.captures.length = right.captures.length) :
    ∃ f : Operation → Operation,
      left.spelledAs right = right.operations.mapValues (fun _ => f) ∧
      ∀ op, SpelledBy right.captures op.parameters →
        (f op).muted = (op.respelled left.captures).muted := by
  by_cases h : (renamesOf left.captures right.captures).isEmpty = true
  · refine ⟨id, by simp [spelledAs, h, Table.mapValues], fun op hop => ?_⟩
    have hnil : renamesOf left.captures right.captures = [] := List.isEmpty_iff.1 h
    have hsame : right.captures = left.captures := by
      have hleft := map_renamed_renamesOf hlen hop.nodup_names
      have hid : ∀ n ∈ right.captures, renamed [] n = n := fun _ _ => rfl
      rwa [hnil, List.map_congr_left hid, List.map_id'] at hleft
    rw [Operation.respelled_of_spelledBy (hsame ▸ hop)]
    rfl
  · refine ⟨renameCaptures (renamesOf left.captures right.captures), ?_, fun op hop => ?_⟩
    · simp [spelledAs, h, Table.mapValues]
    · exact Operation.muted_renameCaptures hlen hop

end ApiTree
