import ApiTree.Proofs.Merge.Spelling

/-!
# ApiTree.Proofs.Merge.Renaming

What a merge writes anew on its right side.  Where `Operation.respelled` gives new names to
captures by their places, and leaves texts alone, here is what happens to the letter: names are
replaced by a table, in the parameters and in the text of the response for a path that is not
found (`renameCaptures`), wherever a name stands between backticks.

* `renameText_eq_self` — a text stays as it is unless the table has a name that is coded in it;
* `Rewrites.renameText_eq` — a text is rewritten piece by piece, each coded name on its own;
* `Operation.renameCaptures_unitedAll` — declarations may be renamed before they are put
  together or afterwards;
* `Operation.find?_responses_unitedAll` — of several declarations the last one that speaks of a
  status is heard.
-/

namespace ApiTree

/-! ## coded names -/

/-- The names between backticks.  `opened` is what was read since a backtick that may open a
name; a name is not empty. -/
def codedFrom (opened : Option (List Char)) : List Char → List String
  | [] => []
  | c :: cs =>
    match opened with
    | none => codedFrom (if c = '\x60' then some [] else none) cs
    | some name =>
      if c = '\x60' then
        if name.isEmpty then codedFrom (some []) cs else String.ofList name :: codedFrom none cs
      else codedFrom (some (name ++ [c])) cs

/-- The names that are coded in a text, between backticks. -/
def codedNames (s : String) : List String := codedFrom none s.toList

/-- A name that is open goes to the next backtick. -/
theorem codedFrom_of_opened (name cs : List Char) :
    codedFrom (some name) cs =
      match cs.dropWhile (· != '\x60') with
      | [] => []
      | _ :: rest =>
        if (name ++ cs.takeWhile (· != '\x60')).isEmpty then codedFrom (some []) rest
        else String.ofList (name ++ cs.takeWhile (· != '\x60')) :: codedFrom none rest := by
  induction cs generalizing name with
  | nil => rfl
  | cons c cs ih =>
      by_cases hc : c = '\x60'
      · simp [codedFrom, hc]
      · rw [codedFrom, if_neg hc, ih]
        simp [hc]

theorem codedFrom_eq_nil {cs : List Char} (h : cs.dropWhile (· != '\x60') = []) :
    codedFrom none cs = [] := by
  induction cs with
  | nil => rfl
  | cons c cs ih =>
      by_cases hc : c = '\x60'
      · simp [hc] at h
      · rw [codedFrom, if_neg hc]
        exact ih (by simpa [List.dropWhile_cons, hc] using h)

/-- Where no coded name is renamed the text stays. -/
theorem renameQuoted_eq_self {renames : Table String String} {fuel : Nat} {cs : List Char}
    (hfuel : cs.length ≤ fuel) (h : ∀ n ∈ codedFrom none cs, renames.find? n = none) :
    renameQuoted renames fuel cs = cs := by
  induction fuel generalizing cs with
  | zero => rfl
  | succ fuel ih =>
      cases cs with
      | nil => rfl
      | cons c cs =>
          have hlen : cs.length ≤ fuel := by simpa using hfuel
          by_cases hc : c = '\x60'
          · rw [codedFrom, if_pos hc, codedFrom_of_opened, List.nil_append] at h
            rw [renameQuoted, if_pos hc]
            -- a name is read up to the next backtick; if there is none, nothing is coded
            cases hrest : cs.dropWhile (· != '\x60') with
            | nil =>
                simp only [ih hlen fun n hn => by simp [codedFrom_eq_nil hrest] at hn]
            | cons close rest =>
                have hcs := List.takeWhile_append_dropWhile (p := (· != '\x60')) (l := cs)
                rw [hrest] at hcs h
                have hclose : close = '\x60' := by
                  simpa [hrest] using List.head_dropWhile_not (· != '\x60') (l := cs)
                    (by simp [hrest])
                have hrestlen : rest.length ≤ fuel := by
                  have hle := (List.dropWhile_sublist (l := cs) (· != '\x60')).length_le
                  rw [hrest, List.length_cons] at hle
                  omega
                dsimp only at h ⊢
                by_cases hname : (cs.takeWhile (· != '\x60')).isEmpty
                · rw [if_pos hname] at h ⊢
                  rw [ih hlen fun n hn => ?_]
                  rw [← hcs, List.isEmpty_iff.1 hname, List.nil_append, codedFrom,
                    if_pos hclose] at hn
                  exact h n hn
                · simp only [hname, if_false, Bool.false_eq_true] at h ⊢
                  obtain ⟨hknown, hrestnames⟩ := List.forall_mem_cons.1 h
                  rw [hknown, ih hrestlen hrestnames]
                  simpa using hcs
          · rw [codedFrom, if_neg hc] at h
            rw [renameQuoted, if_neg hc, ih hlen h]

/-- A text in which no name is coded that is to be replaced stays as it is. -/
theorem renameText_eq_self {renames : Table String String} {s : String}
    (h : ∀ n ∈ codedNames s, renames.find? n = none) : renameText renames s = s := by
  rw [renameText, renameQuoted_eq_self (Nat.le_of_eq String.length_toList) h, String.ofList_toList]

@[simp] theorem renameText_nil (s : String) : renameText [] s = s :=
  renameText_eq_self fun _ _ => rfl

/-! ## replacing coded names -/

/-- A name that can be coded: it is not empty, and no backtick ends it too soon. -/
def Codable (name : String) : Prop := name ≠ "" ∧ '\x60' ∉ name.toList

instance (name : String) : Decidable (Codable name) :=
  inferInstanceAs (Decidable (_ ∧ _))

/-- With its coded names replaced the one text becomes the other. -/
def Rewrites (renames : Table String String) (cs out : List Char) : Prop :=
  ∀ fuel, cs.length ≤ fuel → renameQuoted renames fuel cs = out

namespace Rewrites

variable {renames : Table String String} {cs out : List Char}

theorem nil : Rewrites renames [] [] := by
  intro fuel _
  cases fuel <;> rfl

theorem cons {c : Char} (hc : c ≠ '\x60') (h : Rewrites renames cs out) :
    Rewrites renames (c :: cs) (c :: out) := by
  intro fuel hfuel
  obtain ⟨fuel, rfl⟩ := Nat.exists_eq_add_one_of_ne_zero (Nat.ne_zero_of_lt hfuel)
  rw [renameQuoted, if_neg hc, h fuel (Nat.le_of_succ_le_succ hfuel)]

/-- What stands before a text stays there if it has no backtick. -/
theorem append {plain : List Char} (hplain : '\x60' ∉ plain) (h : Rewrites renames cs out) :
    Rewrites renames (plain ++ cs) (plain ++ out) := by
  induction plain with
  | nil => exact h
  | cons c plain ih =>
      obtain ⟨hc, hplain⟩ := not_or.1 (List.mem_cons.not.1 hplain)
      exact cons (Ne.symm hc) (ih hplain)

/-- A coded name is replaced, and what comes after it is read anew. -/
theorem coded {name : String} (hname : Codable name) (h : Rewrites renames cs out) :
    Rewrites renames ('\x60' :: name.toList ++ '\x60' :: cs)
      ('\x60' :: (renamed renames name).toList ++ '\x60' :: out) := by
  intro fuel hfuel
  rw [List.length_append, List.length_cons, List.length_cons] at hfuel
  obtain ⟨fuel, rfl⟩ := Nat.exists_eq_add_one_of_ne_zero (n := fuel) (by omega)
  have hplain : ∀ c ∈ name.toList, (c != '\x60') = true := by
    intro c hc
    rw [bne_iff_ne]
    rintro rfl
    exact hname.2 hc
  have htake : (name.toList ++ '\x60' :: cs).takeWhile (· != '\x60') = name.toList := by
    rw [List.takeWhile_append_of_pos hplain]
    simp
  have hdrop : (name.toList ++ '\x60' :: cs).dropWhile (· != '\x60') = '\x60' :: cs := by
    rw [List.dropWhile_append_of_pos hplain]
    simp
  have hempty : name.toList.isEmpty = false := by
    simpa [List.isEmpty_eq_false_iff] using hname.1
  have hknown : (renames.find? name).elim name.toList String.toList =
      (renamed renames name).toList := by
    rw [renamed]
    cases renames.find? name <;> rfl
  rw [List.cons_append, renameQuoted, if_pos rfl, htake, hdrop]
  simp only [hempty, String.ofList_toList, hknown, h fuel (by omega)]
  rfl

/-- A text that is rewritten piece by piece is renamed. -/
theorem renameText_eq {s t : String} (h : Rewrites renames s.toList t.toList) :
    renameText renames s = t := by
  rw [renameText, h _ (Nat.le_of_eq String.length_toList), String.ofList_toList]

end Rewrites

/-- A name is not replaced if it stands on the left wherever it stands on the right. -/
theorem find?_renamesOf_eq_none {left right : List String} {n : String}
    (h : ∀ i : Nat, right[i]? = some n → left[i]? = some n) :
    (renamesOf left right).find? n = none := by
  rw [Table.find?_eq_none_iff, renamesOf, Table.mem_keys_ofList]
  intro hn
  obtain ⟨e, he, rfl⟩ := List.mem_map.1 hn
  obtain ⟨⟨ours, theirs⟩, hpair, heq⟩ := List.mem_filterMap.1 he
  obtain ⟨i, hi⟩ := List.mem_iff_getElem?.1 hpair
  obtain ⟨hours, htheirs⟩ := List.getElem?_zip_eq_some.1 hi
  by_cases hsame : ours = theirs
  · simp [hsame] at heq
  · simp only [hsame, beq_iff_eq, if_false, Option.some.injEq] at heq
    subst heq
    exact hsame (Option.some.inj (hours.symm.trans (h i htheirs)))

/-! ## responses -/

/-- The response for a status after names are replaced. -/
def Response.renamed (renames : Table String String) (status : String) (r : Response) : Response :=
  if status = "404" then { r with description := renameText renames r.description } else r

@[simp] theorem Response.renamed_nil (status : String) (r : Response) :
    r.renamed [] status = r := by simp [renamed]

namespace Operation

/-- Renaming captures renames in the text of each response. -/
theorem responses_renameCaptures (renames : Table String String) (op : Operation) :
    (renameCaptures renames op).responses = op.responses.mapValues (Response.renamed renames) := by
  refine List.map_congr_left fun e _ => ?_
  by_cases h : e.1 = "404" <;> simp [Response.renamed, h]

/-- Under a status stands the response with its text renamed. -/
theorem find?_responses_renameCaptures (renames : Table String String) (op : Operation)
    (status : String) : (renameCaptures renames op).responses.find? status =
      (op.responses.find? status).map (Response.renamed renames status) := by
  rw [responses_renameCaptures, Table.find?_mapValues]

@[simp] theorem renameCaptures_nil (op : Operation) : renameCaptures [] op = op := by
  have hparameters : ∀ p : Parameter, (if p.location == "path" then
      { p with name := ((Table.find? [] p.name : Option String)).getD p.name } else p) = p := by
    intro p
    split <;> rfl
  have hresponses := responses_renameCaptures [] op
  rw [Table.mapValues_eq_self Response.renamed_nil] at hresponses
  have hrest : renameCaptures [] op = { op with
      parameters := op.parameters.map fun p => if p.location == "path" then
        { p with name := (Table.find? [] p.name).getD p.name } else p
      responses := (renameCaptures [] op).responses } := rfl
  rw [hrest, hresponses, List.map_congr_left fun p _ => hparameters p, List.map_id']

/-- Renaming captures and taking operations together may be done in either order. -/
theorem renameCaptures_united (renames : Table String String) (a b : Operation) :
    renameCaptures renames (a.united b) =
      (renameCaptures renames a).united (renameCaptures renames b) := by
  have hresponses : (renameCaptures renames (a.united b)).responses =
      ((renameCaptures renames a).united (renameCaptures renames b)).responses := by
    rw [responses_renameCaptures, united, united, responses_renameCaptures,
      responses_renameCaptures, Table.mapValues_putAll]
  exact congrArg (fun responses => { (renameCaptures renames a).united (renameCaptures renames b)
    with responses }) hresponses

/-- Declarations may be renamed before they are put together. -/
theorem renameCaptures_unitedAll (renames : Table String String) (ops : List Operation) :
    renameCaptures renames (unitedAll ops) = unitedAll (ops.map (renameCaptures renames)) := by
  induction ops using List.reverseRecOn with
  | nil => rfl
  | append_singleton ops x ih =>
      by_cases hops : ops = []
      · subst hops
        rfl
      · rw [List.map_append, List.map_singleton, unitedAll_append_singleton hops,
          unitedAll_append_singleton (by simpa using hops), renameCaptures_united, ih]

/-- Renaming captures keeps an operation proper. -/
theorem proper_renameCaptures {op : Operation} (renames : Table String String) (h : op.Proper) :
    (renameCaptures renames op).Proper :=
  ⟨by simpa [responses_renameCaptures] using h.responses, h.content⟩

/-- Of several declarations the last one that speaks of a status is heard. -/
theorem find?_responses_unitedAll {ops : List Operation} (h : ∀ op ∈ ops, op.Proper)
    (status : String) : (unitedAll ops).responses.find? status =
      ops.reverse.findSome? fun op => op.responses.find? status := by
  induction ops using List.reverseRecOn with
  | nil => rfl
  | append_singleton ops x ih =>
      have hx := h x (by simp)
      rw [List.reverse_append, List.reverse_singleton, List.singleton_append, List.findSome?_cons,
        ← ih fun op hop => h op (List.mem_append_left _ hop)]
      by_cases hops : ops = []
      · subst hops
        cases hfind : x.responses.find? status <;> simp [unitedAll, hfind]
      · rw [unitedAll_append_singleton hops, united, Table.find?_putAll _ hx.responses]
        cases x.responses.find? status <;> rfl

/-- Operations that merge come to both together. -/
theorem eq_united_of_mergeOperations {identity : String} {a b x : Operation} (hb : b.Proper)
    (h : mergeOperations identity a b = .ok x) : x = a.united b :=
  ((mergeOperations_eq_ok_iff_matches hb).1 h).2

end Operation

/-! ## entries -/

/-- The operations on the right are renamed one by one. -/
theorem PathEntry.spelledAs_eq (left right : PathEntry) :
    left.spelledAs right = right.operations.mapValues fun _ =>
      renameCaptures (renamesOf left.captures right.captures) := by
  rw [spelledAs]
  split
  · next h =>
      rw [List.isEmpty_iff.1 h]
      exact (Table.mapValues_eq_self (fun _ => Operation.renameCaptures_nil) _).symm
  · rfl

end ApiTree
