import ApiTree.Compilation.Merge
import ApiTree.Proofs.Table.Merge
import Mathlib.Data.List.Induction

/-!
# ApiTree.Proofs.Merge.United

What two declarations of one operation make together when nothing in them
clashes: `Operation.united`.  It is total, and it is associative
(`Operation.united_assoc`), because each of its parts is: lists are united with
the first of equal elements kept, texts on the right win, and tables keep the
places on the left and the values on the right.

`Operation.muted` takes away the one text that depends on the order of merging,
that of the response for a path that is not found; it goes through
`united` (`Operation.muted_united`).
-/

namespace ApiTree

/-! ## lists -/

section Union

variable {α : Type} {same : α → α → Bool}

@[simp] theorem union_nil (xs : List α) : union same xs [] = xs := rfl

/-- An element of the second list is taken over unless one like it is there. -/
theorem union_cons (xs : List α) (y : α) (ys : List α) :
    union same xs (y :: ys) = union same (if xs.any (same y) then xs else xs ++ [y]) ys := rfl

theorem subset_union (xs ys : List α) : ∀ x ∈ xs, x ∈ union same xs ys := by
  induction ys generalizing xs with
  | nil => simp
  | cons y ys ih =>
      intro x hx
      rw [union_cons]
      split
      · exact ih _ x hx
      · exact ih _ x (List.mem_append_left _ hx)

/-- An element that is met on the left, up to `same`, adds nothing. -/
theorem union_append_singleton (xs ys : List α) (z : α) :
    union same xs (ys ++ [z]) =
      if (union same xs ys).any (same z) then union same xs ys else union same xs ys ++ [z] := by
  rw [union, List.foldl_append]
  rfl

/-- What is like an element of either list is like one of both together. -/
theorem any_union (htrans : ∀ x y z, same x y = true → same y z = true → same x z = true)
    (xs ys : List α) (z : α) :
    (∃ x ∈ xs, same z x = true) ∨ (∃ y ∈ ys, same z y = true) →
      (union same xs ys).any (same z) = true := by
  rintro (⟨x, hx, hzx⟩ | hys)
  · exact List.any_eq_true.2 ⟨x, subset_union xs ys x hx, hzx⟩
  · induction ys generalizing xs with
    | nil => simp at hys
    | cons y ys ih =>
        obtain ⟨v, hv, hzv⟩ := hys
        rw [union_cons]
        rcases List.mem_cons.1 hv with rfl | hv
        · split
          · next h =>
              obtain ⟨x, hx, hvx⟩ := List.any_eq_true.1 h
              exact List.any_eq_true.2 ⟨x, subset_union _ _ x hx, htrans z v x hzv hvx⟩
          · exact List.any_eq_true.2 ⟨v, subset_union _ _ v (by simp), hzv⟩
        · exact ih _ ⟨v, hv, hzv⟩

/-- The elements of both together are those of either. -/
theorem mem_union (xs ys : List α) : ∀ x ∈ union same xs ys, x ∈ xs ∨ x ∈ ys := by
  induction ys generalizing xs with
  | nil => simp
  | cons y ys ih =>
      intro x hx
      rw [union_cons] at hx
      split at hx
      · rcases ih _ x hx with h | h
        · exact .inl h
        · exact .inr (List.mem_cons_of_mem _ h)
      · rcases ih _ x hx with h | h
        · rcases List.mem_append.1 h with h | h
          · exact .inl h
          · exact .inr (by simp_all)
        · exact .inr (List.mem_cons_of_mem _ h)

/-- Whatever is new to the union is new on the left and among what is added. -/
theorem any_union_iff (htrans : ∀ x y z, same x y = true → same y z = true → same x z = true)
    (xs ys : List α) (z : α) :
    (union same xs ys).any (same z) = (xs.any (same z) || ys.any (same z)) := by
  rw [Bool.eq_iff_iff, Bool.or_eq_true, List.any_eq_true (l := xs), List.any_eq_true (l := ys)]
  refine ⟨fun h => ?_, any_union htrans xs ys z⟩
  obtain ⟨x, hx, hzx⟩ := List.any_eq_true.1 h
  rcases mem_union xs ys x hx with hx | hx
  · exact .inl ⟨x, hx, hzx⟩
  · exact .inr ⟨x, hx, hzx⟩

/-- Lists can be taken together in either order of steps. -/
theorem union_assoc (htrans : ∀ x y z, same x y = true → same y z = true → same x z = true)
    (xs ys zs : List α) :
    union same (union same xs ys) zs = union same xs (union same ys zs) := by
  induction zs generalizing ys with
  | nil => rfl
  | cons z zs ih =>
      rw [union_cons ys, union_cons (union same xs ys), ← ih]
      congr 1
      rw [any_union_iff htrans]
      by_cases hy : ys.any (same z) = true
      · simp [hy]
      · rw [Bool.not_eq_true] at hy
        simp only [hy, Bool.or_false, Bool.false_eq_true, if_false]
        rw [union_append_singleton, any_union_iff htrans, hy, Bool.or_false]

end Union

/-- Requirements with the same names and scopes. -/
theorem SecurityRequirement.same_trans {a b c : SecurityRequirement}
    (hab : a.same b = true) (hbc : b.same c = true) : a.same c = true := by
  simp only [SecurityRequirement.same, Table.same, Bool.and_eq_true, beq_iff_eq, List.all_eq_true,
    Option.any_eq_true] at *
  refine ⟨hab.1.trans hbc.1, fun e he => ?_⟩
  obtain ⟨v, hv, hev⟩ := hab.2 e he
  obtain ⟨w, hw, hvw⟩ := hbc.2 (e.1, v) (Table.mem_of_find? hv)
  exact ⟨w, hw, hev.trans hvw⟩

/-- The last text that is not empty counts, in either order of steps. -/
theorem nonEmptyOr_assoc (a b c : Option String) :
    nonEmptyOr c (nonEmptyOr b a) = nonEmptyOr (nonEmptyOr c b) a := by
  cases c with
  | none => rfl
  | some s => by_cases h : s.isEmpty = true <;> simp [nonEmptyOr, h]

/-! ## operations -/

/-- The bodies of two declarations together. -/
def unitedBodies : Option RequestBody → Option RequestBody → Option RequestBody
  | some a, some b =>
    some
      { content := a.content.putAll b.content
        required := some (a.required.getD false || b.required.getD false)
        description := b.description.or a.description }
  | a, b => a.or b

namespace Operation

/-- Two declarations of one operation together; the parameters are the left ones. -/
def united (a b : Operation) : Operation :=
  { tags := union (· == ·) a.tags b.tags
    summary := b.summary.or a.summary
    description := b.description.or a.description
    operationId := nonEmptyOr b.operationId a.operationId
    parameters := a.parameters
    requestBody := unitedBodies a.requestBody b.requestBody
    responses := a.responses.putAll b.responses
    security := union SecurityRequirement.same a.security b.security }

/-- The declarations of one operation together, the last one applied last. -/
def unitedAll : List Operation → Operation
  | [] => {}
  | op :: ops => ops.foldl united op

/-- The tables of an operation have no repeated keys. -/
structure Proper (op : Operation) : Prop where
  responses : op.responses.keys.Nodup
  content : ∀ b, op.requestBody = some b → b.content.keys.Nodup

/-- Proper operations are proper together. -/
theorem proper_united {a b : Operation} (ha : a.Proper) (hb : b.Proper) : (a.united b).Proper where
  responses := Table.nodup_keys_putAll ha.responses _
  content := by
    intro x hx
    simp only [united] at hx
    cases hx' : a.requestBody <;> cases hy' : b.requestBody <;>
      simp only [hx', hy', unitedBodies, Option.or_some, Option.or_none,
        Option.some.injEq, reduceCtorEq] at hx
    · exact hb.content x (hx ▸ hy')
    · exact ha.content x (hx ▸ hx')
    · subst hx
      exact Table.nodup_keys_putAll (ha.content _ hx') _

/-- Bodies can be taken together in either order of steps. -/
theorem unitedBodies_assoc {a b c : Operation} (ha : a.Proper) (hb : b.Proper) (hc : c.Proper) :
    unitedBodies (unitedBodies a.requestBody b.requestBody) c.requestBody =
      unitedBodies a.requestBody (unitedBodies b.requestBody c.requestBody) := by
  cases ha' : a.requestBody <;> cases hb' : b.requestBody <;> cases hc' : c.requestBody <;>
    try rfl
  next x y z =>
    simp only [unitedBodies, Option.getD_some, Bool.or_assoc, Option.or_assoc,
      Table.putAll_assoc (ha.content x ha') (hb.content y hb') (hc.content z hc')]

/-- Operations can be taken together in either order of steps. -/
theorem united_assoc {a b c : Operation} (ha : a.Proper) (hb : b.Proper) (hc : c.Proper) :
    (a.united b).united c = a.united (b.united c) := by
  have htags : ∀ x y z : String, (x == y) = true → (y == z) = true → (x == z) = true := by
    simp_all
  have hsecurity : ∀ x y z : SecurityRequirement, x.same y = true → y.same z = true →
      x.same z = true := fun _ _ _ => SecurityRequirement.same_trans
  simp only [united, union_assoc htags, union_assoc hsecurity, Option.or_assoc, nonEmptyOr_assoc,
    unitedBodies_assoc ha hb hc, Table.putAll_assoc ha.responses hb.responses hc.responses]

/-- Many proper operations are proper together. -/
theorem proper_unitedAll {ops : List Operation} (hne : ops ≠ []) (h : ∀ op ∈ ops, op.Proper) :
    (unitedAll ops).Proper := by
  cases ops with
  | nil => exact absurd rfl hne
  | cons op ops =>
      have hop := h op List.mem_cons_self
      replace h : ∀ op ∈ ops, op.Proper := fun x hx => h x (List.mem_cons_of_mem _ hx)
      clear hne
      simp only [unitedAll]
      induction ops generalizing op with
      | nil => exact hop
      | cons x ops ih =>
          exact ih (op.united x) (proper_united hop (h x List.mem_cons_self))
            fun y hy => h y (List.mem_cons_of_mem _ hy)

/-- One more operation is taken together with the others. -/
theorem unitedAll_append_singleton {ops : List Operation} (hne : ops ≠ []) (x : Operation) :
    unitedAll (ops ++ [x]) = (unitedAll ops).united x := by
  cases ops with
  | nil => exact absurd rfl hne
  | cons op ops => simp [unitedAll, List.foldl_append]

/-- The parameters of operations together are those of the first. -/
theorem parameters_unitedAll_cons (op : Operation) (ops : List Operation) :
    (unitedAll (op :: ops)).parameters = op.parameters := by
  induction ops using List.reverseRecOn with
  | nil => rfl
  | append_singleton ops x ih =>
      rw [← List.cons_append, unitedAll_append_singleton (List.cons_ne_nil _ _)]
      exact ih

/-- The declarations of two parts, united part by part. -/
theorem unitedAll_append {xs ys : List Operation} (hx : xs ≠ []) (hy : ys ≠ [])
    (hpx : ∀ op ∈ xs, op.Proper) (hpy : ∀ op ∈ ys, op.Proper) :
    unitedAll (xs ++ ys) = (unitedAll xs).united (unitedAll ys) := by
  induction ys using List.reverseRecOn with
  | nil => exact absurd rfl hy
  | append_singleton ys y ih =>
      by_cases hys : ys = []
      · subst hys
        rw [List.nil_append, unitedAll_append_singleton hx]
        rfl
      · have hpys : ∀ op ∈ ys, op.Proper := fun op hop => hpy op (List.mem_append_left _ hop)
        rw [← List.append_assoc, unitedAll_append_singleton (by simp [hx]), ih hys hpys,
          unitedAll_append_singleton hys,
          united_assoc (proper_unitedAll hx hpx) (proper_unitedAll hys hpys) (hpy y (by simp))]

/-! ## the text for a path that is not found -/

/-- The response without its text if it is the one for a path that is not found. -/
def mutedResponse (status : String) (r : Response) : Response :=
  if status == "404" then { r with description := "" } else r

/-- The operation without the text of its response for a path that is not found. -/
def muted (op : Operation) : Operation :=
  { op with responses := op.responses.mapValues mutedResponse }

@[simp] theorem parameters_muted (op : Operation) : op.muted.parameters = op.parameters := rfl

/-- Without the texts of their responses operations are taken together all the same. -/
theorem muted_united (a b : Operation) : (a.united b).muted = a.muted.united b.muted := by
  simp [muted, united, Table.mapValues_putAll]

/-- Without the texts of its responses an operation is proper exactly if it is. -/
theorem proper_muted_iff (op : Operation) : op.muted.Proper ↔ op.Proper :=
  ⟨fun h => ⟨by simpa [muted] using h.responses, h.content⟩,
    fun h => ⟨by simpa [muted] using h.responses, h.content⟩⟩

end Operation
end ApiTree
