import ApiTree.Proofs.Conformance.Violations
import ApiTree.Proofs.Json.Values

/-!
# ApiTree.Proofs.Conformance.Comparison

What a check makes of equal values.  An enumeration is looked at after what stands before it in
the order of a check, and so are equal items (`ComesToEnum`, `ComesToItems`).  From there on a
violation of either keyword at the place of the value is due to the comparison alone: what comes
later reports its own keywords, or a place further in.

* `check_reports_equality` — the enumeration is reported just if the value equals no member, and
  equal items just if there are some; this is equality of JSON values as long as no boolean faces
  the number that it counts as, and in any case equality with the booleans inside counted.
-/

namespace ApiTree

namespace Check

variable {definitions : Table String Json} {rule : Option (TextRule (Except Fault))}
  {sub : Json → Json → Except Fault Verdict} {v : Json} {s : Schema} {xs : List Json}

/-! ## keywords that are reported at the value itself -/

/-- The keywords that the constraints of a value's own kind report at the value itself. -/
def ofOwnKind : List String :=
  ["minimum", "maximum", "exclusiveMinimum", "exclusiveMaximum", "multipleOf", "minLength",
    "maxLength", "pattern", "format", "minItems", "maxItems"]

/-- The keywords that a schema reports at the value itself. -/
def ofValue : List String := ["anyOf", "oneOf", "type", "enum"] ++ ofOwnKind

/-- A violation at the value itself is of one of the keywords. -/
def HereOf (keywords : List String) (x : Violation) : Prop :=
  x.steps = [] → x.constraint ∈ keywords

/-- A breach of the value itself is found here. -/
theorem finds_onValue_hereOf {keywords : List String} {b : Except Fault (Option Breach)}
    (h : Finds b fun b => b.constraint ∈ keywords) :
    Finds (onValue (m := Except Fault) b) (HereOf keywords) :=
  finds_onValue (h.mono fun _ hb _ => hb)

/-- What is found in a part is not found here. -/
theorem hereOf_under (keywords : List String) (step : Step) (x : Violation) :
    HereOf keywords (x.under step) := by
  rintro ⟨⟩

/-- A bound reports its own breach. -/
theorem finds_bounded_of {Q : Breach → Prop} {bound : Option Json} {operator : String}
    {crosses : Number → Number → Bool} {breach : Json → Json → Breach}
    (h : ∀ b, Q (breach v b)) : Finds (bounded bound operator crosses v breach) Q := by
  cases bound with
  | none => exact finds_none
  | some b => exact finds_bind fun _ _ => finds_breachIf fun _ => h b

/-- The keywords for a size report their own breaches. -/
theorem finds_ofSize_of {Q : Breach → Prop} {size : Nat} {least most : String}
    {tooFew tooMany : Nat → Json → Breach} (hfew : ∀ b, Q (tooFew size b))
    (hmany : ∀ b, Q (tooMany size b)) : Finds (ofSize size s least most tooFew tooMany) Q := by
  refine finds_firstBreach fun b hb => ?_
  simp only [List.mem_cons, List.not_mem_nil, or_false] at hb
  rcases hb with rfl | rfl
  · exact finds_bounded_of hfew
  · exact finds_bounded_of hmany

/-- The keyword `multipleOf` reports its own breach. -/
theorem finds_ofMultiple_of {Q : Breach → Prop} (h : ∀ d, Q (.multipleOf v d)) :
    Finds (ofMultiple v s) Q := by
  rw [ofMultiple]
  split
  · exact finds_none
  · next d _ =>
      split
      · exact finds_none
      · split
        · split
          · exact finds_breachIf fun _ => h d
          · rintro _ ⟨⟩
        · rintro _ ⟨⟩

/-- The keywords for numbers report breaches of their own kind. -/
theorem finds_ofNumber_ownKind : Finds (ofNumber v s) fun b => b.constraint ∈ ofOwnKind := by
  refine finds_firstBreach fun b hb => ?_
  simp only [List.mem_cons, List.not_mem_nil, or_false] at hb
  rcases hb with rfl | rfl | rfl | rfl | rfl
  · exact finds_bounded_of fun _ => by simp [ofOwnKind, Breach.constraint]
  · exact finds_bounded_of fun _ => by simp [ofOwnKind, Breach.constraint]
  · exact finds_bounded_of fun _ => by simp [ofOwnKind, Breach.constraint]
  · exact finds_bounded_of fun _ => by simp [ofOwnKind, Breach.constraint]
  · exact finds_ofMultiple_of fun _ => by simp [ofOwnKind, Breach.constraint]

/-- The keywords for texts report breaches of their own kind. -/
theorem finds_ofText_hereOf (text : String) : Finds (ofText rule text s) (HereOf ofOwnKind) := by
  have hpattern (p : Json) : HereOf ofOwnKind (.here (.pattern text p)) := fun _ => by
    simp [ofOwnKind, Violation.constraint, Violation.here, Breach.constraint]
  have hformat (f : Json) : HereOf ofOwnKind (.here (.format text f)) := fun _ => by
    simp [ofOwnKind, Violation.constraint, Violation.here, Breach.constraint]
  refine finds_orElse ?_ ?_
  · cases given? s "pattern" with
    | none => exact finds_none
    | some p => cases rule <;> exact finds_bind fun _ _ => finds_unless fun _ => hpattern p
  · split
    · next f _ _ => exact finds_bind fun _ _ => finds_unless fun _ => hformat f
    · exact finds_none

/-- The keywords for arrays report breaches of their own kind, or in a part. -/
theorem finds_ofArray_hereOf : Finds (ofArray sub xs s) (HereOf ofOwnKind) := by
  refine finds_orElse ?_ (finds_orElse ?_ (finds_orElse ?_ ?_))
  · refine finds_onValue_hereOf (finds_ofSize_of (fun _ => ?_) fun _ => ?_)
    · simp [ofOwnKind, Breach.constraint]
    · simp [ofOwnKind, Breach.constraint]
  · split
    · rintro x hx
      obtain ⟨i, -, rfl⟩ := Option.map_eq_some_iff.1 (pure_eq_ok_iff.1 hx)
      exact hereOf_under _ _ _
    · exact finds_none
  · split
    · exact finds_ofItems fun _ _ _ _ _ => hereOf_under _ _ _
    · exact finds_ofPairs fun _ _ _ _ _ _ _ => hereOf_under _ _ _
    · exact finds_none
  · exact finds_bind fun _ _ => finds_ofPairs fun _ _ _ _ _ _ _ => hereOf_under _ _ _

/-- A name that is missing is reported under the name. -/
theorem finds_firstMissing_hereOf (keywords : List String) (ms : Json.Members)
    (names : List Json) : Finds (firstMissing ms names) (HereOf keywords) := by
  induction names with
  | nil => exact finds_none
  | cons j names ih =>
      have hother : Finds (do hashable j
                              return some ((Violation.here (.missing j)).under (.member j.inText)))
          (HereOf keywords) := finds_bind fun _ _ => finds_some (hereOf_under _ _ _)
      cases j with
      | str name =>
          rw [firstMissing]
          split
          · exact ih
          · exact finds_some (hereOf_under _ _ _)
      | _ => exact hother

/-- A member beside the declared ones is reported under its name. -/
theorem finds_ofExtra_hereOf (keywords : List String) (extra : Option Json) (name : String) :
    Finds (ofExtra sub extra name v) (HereOf keywords) := by
  rw [ofExtra.eq_def]
  split
  · exact finds_some (hereOf_under _ _ _)
  · exact finds_onPart fun _ _ => hereOf_under _ _ _
  · exact finds_none

/-- The keywords for objects report breaches under names. -/
theorem finds_ofObject_hereOf (keywords : List String) (ms : Json.Members) :
    Finds (ofObject sub ms s) (HereOf keywords) := by
  refine finds_orElse (finds_bind fun _ _ => finds_firstMissing_hereOf _ _ _)
    (finds_bind fun described _ => finds_orElse (finds_firstOf fun e _ => ?_)
      (finds_firstOf fun e _ => ?_))
  · dsimp only
    split
    · exact finds_onPart fun _ _ => hereOf_under _ _ _
    · exact finds_none
  · dsimp only
    split
    · exact finds_none
    · exact finds_ofExtra_hereOf _ _ _

/-- The keywords for one kind of value report breaches of their own kind. -/
theorem finds_ofKind_hereOf : Finds (ofKind sub rule v s) (HereOf ofOwnKind) := by
  cases v with
  | int _ | float _ => exact finds_onValue_hereOf finds_ofNumber_ownKind
  | str text =>
      rw [ofKind]
      refine finds_orElse (finds_onValue_hereOf (finds_ofSize_of (fun _ => ?_) fun _ => ?_)) ?_
      · simp [ofOwnKind, Breach.constraint]
      · simp [ofOwnKind, Breach.constraint]
      · exact finds_ofText_hereOf text
  | arr xs => exact finds_ofArray_hereOf
  | obj ms => exact finds_ofObject_hereOf _ _
  | _ => exact finds_none

/-- A schema reports breaches of its own keywords, or in a part. -/
theorem finds_ofSchema_hereOf (h : ∀ w t, Finds (sub w t) (HereOf ofValue)) :
    Finds (ofSchema sub rule v s) (HereOf ofValue) := by
  rw [ofSchema]
  split
  · exact finds_none
  refine finds_orElse ?_ (finds_orElse ?_ (finds_orElse ?_ (finds_orElse ?_ (finds_orElse ?_ ?_))))
  · exact finds_bind fun _ _ => finds_firstOf fun t _ => h v t
  · rw [ofAny]
    split
    · exact finds_none
    · refine finds_bind fun _ _ => finds_bind fun _ _ => finds_unless fun _ _ => ?_
      simp [ofValue, Violation.constraint, Violation.here, Breach.constraint]
  · rw [ofOne]
    split
    · exact finds_none
    · refine finds_bind fun _ _ => finds_bind fun n _ => ?_
      split
      · exact finds_none
      · refine finds_some fun _ => ?_
        simp [ofValue, Violation.constraint, Violation.here, Breach.constraint]
  · refine finds_onValue_hereOf ?_
    rw [ofType]
    split
    · exact finds_none
    · exact finds_bind fun _ _ => finds_breachIf fun _ => by simp [ofValue, Breach.constraint]
  · refine finds_onValue_hereOf ?_
    rw [ofEnum]
    split
    · exact finds_none
    · exact finds_bind fun _ _ => finds_breachIf fun _ => by simp [ofValue, Breach.constraint]
  · exact finds_ofKind_hereOf.mono fun _ hx hsteps => List.mem_append_right _ (hx hsteps)

/-- A check reports no more than these keywords at the value itself. -/
theorem finds_within_hereOf (definitions : Table String Json)
    (rule : Option (TextRule (Except Fault))) (fuel : Nat) (v t : Json) :
    Finds (within definitions rule fuel v t) (HereOf ofValue) := by
  induction fuel generalizing v t with
  | zero => rintro _ ⟨⟩
  | succ fuel ih =>
      cases t with
      | obj s =>
          rw [within]
          split
          · exact finds_bind fun t _ => ih v t
          · exact finds_ofSchema_hereOf ih
      | _ => rintro _ ⟨⟩

/-! ## the way of a check -/

/-- The check of the schemas inside of a schema for a value. -/
def inner (definitions : Table String Json) (rule : Option (TextRule (Except Fault))) (v : Json)
    (s : Schema) : Json → Json → Except Fault Verdict :=
  within definitions rule (budget definitions v (.obj s) - 1)

/-- A check comes to the enumeration: the schema is no reference, does not allow for null
where the value is null, and nothing is found in its combinations and in the type. -/
structure ComesToEnum (definitions : Table String Json)
    (rule : Option (TextRule (Except Fault))) (v : Json) (s : Schema) : Prop where
  ref : Table.find? s "$ref" = none
  null : (v.kind == "NoneType" && flagged s "nullable") = false
  all : (do firstOf (inner definitions rule v s v) (← listed s "allOf")) = .ok none
  any : ofAny (inner definitions rule v s) v s = .ok none
  one : ofOne (inner definitions rule v s) v s = .ok none
  type : ofType v s = .ok none

/-- A check of an array comes to the comparison of its items: it has come to the enumeration,
and nothing is found there and in the number of items. -/
structure ComesToItems (definitions : Table String Json)
    (rule : Option (TextRule (Except Fault))) (xs : List Json) (s : Schema) : Prop
    extends ComesToEnum definitions rule (.arr xs) s where
  enum : ofEnum (.arr xs) s = .ok none
  size : ofSize xs.length s "minItems" "maxItems" .minItems .maxItems = .ok none

/-- After a verdict that finds nothing the next one counts. -/
theorem orElse_of_ok_none {first : Except Fault Verdict} {second : Unit → Except Fault Verdict}
    (h : first = .ok none) : orElse first second = second () := by
  rw [h]
  rfl

/-- Where nothing is broken nothing is found. -/
theorem onValue_of_ok_none {b : Except Fault (Option Breach)} (h : b = .ok none) :
    onValue (m := Except Fault) b = .ok none := by
  rw [h]
  rfl

/-- A check that comes to the options looks at them first. -/
theorem ComesToEnum.run_eq (h : ComesToEnum definitions rule v s) :
    run definitions rule v (.obj s) =
      orElse (onValue (ofEnum v s)) fun _ => ofKind (inner definitions rule v s) rule v s := by
  have hpositive : 0 < budget definitions v (.obj s) :=
    Nat.mul_pos (Nat.mul_pos (Nat.succ_pos _) (Nat.succ_pos _)) (Nat.succ_pos _)
  have hrun : run definitions rule v (.obj s) = ofSchema (inner definitions rule v s) rule v s := by
    rw [run, ← Nat.succ_pred_eq_of_pos hpositive, within, h.ref]
    rfl
  rw [hrun, ofSchema, h.null, if_neg (by decide)]
  refine (orElse_of_ok_none h.all).trans ?_
  rw [orElse_of_ok_none h.any, orElse_of_ok_none h.one,
    orElse_of_ok_none (onValue_of_ok_none h.type)]

/-- What a check of an array does after the comparison of its items. -/
def ofItemSchemas (sub : Json → Json → Except Fault Verdict) (xs : List Json) (s : Schema) :
    Except Fault Verdict :=
  orElse
    (match Table.find? s "items" with
      | some (.obj ms) => ofItems sub (.obj ms) 0 xs
      | some (.arr ts) => ofPairs sub 0 xs ts
      | _ => pure none) fun _ => do
  ofPairs sub 0 xs (← listed s "prefixItems")

/-- A check that comes to the items looks for repeated ones first. -/
theorem ComesToItems.run_eq (h : ComesToItems definitions rule xs s) :
    run definitions rule (.arr xs) (.obj s) =
      orElse (pure (if flagged s "uniqueItems" then
          (repeated? [] xs).map fun i => (Violation.here .duplicateItem).under (.item i)
        else none)) fun _ => ofItemSchemas (inner definitions rule (.arr xs) s) xs s := by
  rw [h.toComesToEnum.run_eq, orElse_of_ok_none (onValue_of_ok_none h.enum), ofKind, ofArray,
    orElse_of_ok_none (onValue_of_ok_none h.size)]
  rfl

/-! ## what is reported -/

/-- A check reports a violation of a keyword at a place in the value. -/
def ReportsAt (definitions : Table String Json) (rule : Option (TextRule (Except Fault))) (v : Json)
    (s : Schema) (steps : List Step) (keyword : String) : Prop :=
  ∃ x, run definitions rule v (.obj s) = .ok (some x) ∧ x.steps = steps ∧ x.constraint = keyword

/-- The members of the enumeration of a schema. -/
def Enumerates (s : Schema) (members : List Json) : Prop :=
  ∃ options, Table.find? s "enum" = some options ∧ parts options = .ok members

/-- Two items of a list, at different places, are related. -/
def SomePair (R : Json → Json → Prop) (xs : List Json) : Prop :=
  ∃ i k : Nat, ∃ x y, k < i ∧ xs[i]? = some x ∧ xs[k]? = some y ∧ R x y

/-- A repeated item is found exactly if two items are equal. -/
theorem repeated?_isSome_iff (xs : List Json) :
    (∃ i, repeated? [] xs = some i) ↔ SomePair (fun x y => x.itemEq y = true) xs := by
  constructor
  · rintro ⟨i, hi⟩
    obtain ⟨x, y, k, hx, hk, hy, heq⟩ := repeated?_eq_some hi
    exact ⟨i, k, x, y, hk, hx, hy, heq⟩
  · rintro ⟨i, k, x, y, hk, hx, hy, heq⟩
    rw [← Option.isSome_iff_exists, Option.isSome_iff_ne_none, Ne, repeated?_eq_none_iff]
    rintro ⟨-, hpairs⟩
    obtain ⟨hi, rfl⟩ := List.getElem?_eq_some_iff.1 hx
    obtain ⟨hk', rfl⟩ := List.getElem?_eq_some_iff.1 hy
    have hne := List.pairwise_iff_getElem.1 hpairs k i hk' hi hk
    rw [itemEq_comm, heq] at hne
    cases hne

/-- A schema enumerates one list of options. -/
theorem Enumerates.unique {members members' : List Json} (h : Enumerates s members)
    (h' : Enumerates s members') : members = members' := by
  obtain ⟨options, hfound, hparts⟩ := h
  obtain ⟨options', hfound', hparts'⟩ := h'
  obtain rfl := Option.some.inj (hfound.symm.trans hfound')
  exact Except.ok.inj (hparts.symm.trans hparts')

/-- What is made of an enumeration: it is not there, or cannot be read, or its members are
compared with the value. -/
theorem ofEnum_cases (v : Json) (s : Schema) :
    (ofEnum v s = .ok none ∧ ∀ members, ¬ Enumerates s members) ∨
      (∃ e, ofEnum v s = .error e ∧ ∀ members, ¬ Enumerates s members) ∨
      ∃ options members, Enumerates s members ∧
        ofEnum v s = .ok (breachIf (!members.any v.itemEq) (.enum v options)) := by
  rw [ofEnum]
  cases hoptions : Table.find? s "enum" with
  | none =>
      refine .inl ⟨rfl, ?_⟩
      rintro members ⟨options, hfound, -⟩
      cases hoptions.symm.trans hfound
  | some options =>
      cases hparts : parts options with
      | error e =>
          refine .inr (.inl ⟨e, by simp only [hparts]; rfl, ?_⟩)
          rintro members ⟨options', hfound, hmembers⟩
          obtain rfl := Option.some.inj (hoptions.symm.trans hfound)
          cases hparts.symm.trans hmembers
      | ok members =>
          refine .inr (.inr ⟨options, members, ⟨options, hoptions, hparts⟩, ?_⟩)
          simp only [hparts]
          rfl

/-- The enumeration is reported just if the value equals none of its members. -/
theorem ComesToEnum.reports_iff (h : ComesToEnum definitions rule v s) :
    ReportsAt definitions rule v s [] "enum" ↔
      ∃ members, Enumerates s members ∧ ∀ e ∈ members, v.itemEq e = false := by
  -- what comes later has keywords of its own
  have hlater : ∀ x, ofKind (inner definitions rule v s) rule v s = .ok (some x) →
      x.steps = [] → x.constraint ≠ "enum" := by
    intro x hx hsteps heq
    have hmem := finds_ofKind_hereOf x hx hsteps
    rw [heq] at hmem
    exact absurd hmem (by decide)
  rw [ReportsAt, h.run_eq]
  obtain ⟨hnone, habsent⟩ | ⟨e, herror, habsent⟩ | ⟨options, members, hmembers, hcompared⟩ :=
    ofEnum_cases v s
  · rw [orElse_of_ok_none (onValue_of_ok_none hnone)]
    constructor
    · rintro ⟨x, hx, hsteps, hkeyword⟩
      exact absurd hkeyword (hlater x hx hsteps)
    · rintro ⟨members, hmembers, -⟩
      exact absurd hmembers (habsent members)
  · rw [herror]
    constructor
    · rintro ⟨x, ⟨⟩, -⟩
    · rintro ⟨members, hmembers, -⟩
      exact absurd hmembers (habsent members)
  · cases hany : members.any v.itemEq with
    | true =>
        rw [hany] at hcompared
        rw [orElse_of_ok_none (onValue_of_ok_none hcompared)]
        constructor
        · rintro ⟨x, hx, hsteps, hkeyword⟩
          exact absurd hkeyword (hlater x hx hsteps)
        · rintro ⟨members', hmembers', hnone⟩
          obtain rfl := hmembers'.unique hmembers
          obtain ⟨e, he, heq⟩ := List.any_eq_true.1 hany
          rw [hnone e he] at heq
          cases heq
    | false =>
        rw [hcompared, hany]
        exact iff_of_true ⟨.here (.enum v options), rfl, rfl, rfl⟩
          ⟨members, hmembers, by simpa using hany⟩

/-- The schemas of items report no repeated item. -/
theorem finds_ofItemSchemas (hsub : ∀ w t, Finds (sub w t) (HereOf ofValue)) :
    Finds (ofItemSchemas sub xs s) fun x =>
      ∀ i, x.steps = [.item i] → x.constraint ≠ "uniqueItems" := by
  have hinside (w t : Json) (step : Step) : Finds (sub w t) fun x =>
      ∀ i, (x.under step).steps = [.item i] → (x.under step).constraint ≠ "uniqueItems" := by
    intro x hx i hsteps heq
    have hmem : x.constraint ∈ ofValue := hsub w t x hx (List.cons.inj hsteps).2
    rw [show x.constraint = "uniqueItems" from heq] at hmem
    exact absurd hmem (by decide)
  refine finds_orElse ?_ (finds_bind fun ts _ => finds_ofPairs fun _ x t _ _ => hinside x t _)
  split
  · exact finds_ofItems fun _ x _ => hinside x _ _
  · exact finds_ofPairs fun _ x t _ _ => hinside x t _
  · exact finds_none

/-- Equal items are reported just if the schema asks for none and there are some. -/
theorem ComesToItems.reports_iff (h : ComesToItems definitions rule xs s) :
    (∃ i, ReportsAt definitions rule (.arr xs) s [.item i] "uniqueItems") ↔
      flagged s "uniqueItems" = true ∧ SomePair (fun x y => x.itemEq y = true) xs := by
  have hlater : Finds (ofItemSchemas (inner definitions rule (.arr xs) s) xs s) fun x =>
      ∀ i, x.steps = [.item i] → x.constraint ≠ "uniqueItems" :=
    finds_ofItemSchemas (finds_within_hereOf definitions rule _)
  simp only [ReportsAt, h.run_eq]
  rw [← repeated?_isSome_iff]
  cases hflag : flagged s "uniqueItems" with
  | false =>
      refine iff_of_false ?_ (by simp)
      rintro ⟨i, x, hx, hsteps, hkeyword⟩
      exact hlater x hx i hsteps hkeyword
  | true =>
      cases hrepeated : repeated? [] xs with
      | none =>
          refine iff_of_false ?_ (by simp)
          rintro ⟨i, x, hx, hsteps, hkeyword⟩
          exact hlater x hx i hsteps hkeyword
      | some i =>
          exact iff_of_true ⟨i, _, rfl, rfl, rfl⟩ ⟨rfl, i, rfl⟩

end Check

open Check

/-- What a check compares, and what it reports of it.  Two values pass for equal just if they are
equal JSON values, except that below the top a boolean passes for the number that it counts as.
When a check comes to it, the enumeration is reported just if the value passes for none of the
members, and equal items just if one passes for an earlier one; so both mean equality of JSON
values wherever no boolean faces the number that it counts as. -/
theorem check_reports_equality (definitions : Table String Json)
    (rule : Option (TextRule (Except Fault))) :
    (∀ a b : Json, (a.Equal b ↔ a.itemEq b = true ∧ ¬ a.Conflates b) ∧
      (a.itemEq b = true ↔ a.isBool = b.isBool ∧ a.counted.Equal b.counted)) ∧
    (∀ v s, ComesToEnum definitions rule v s →
      (ReportsAt definitions rule v s [] "enum" ↔
        ∃ members, Enumerates s members ∧ ∀ e ∈ members, v.itemEq e = false) ∧
      ((∀ members, Enumerates s members → ∀ e ∈ members, ¬ v.Conflates e) →
        (ReportsAt definitions rule v s [] "enum" ↔
          ∃ members, Enumerates s members ∧ ∀ e ∈ members, ¬ v.Equal e))) ∧
    ∀ xs s, ComesToItems definitions rule xs s →
      ((∃ i, ReportsAt definitions rule (.arr xs) s [.item i] "uniqueItems") ↔
        flagged s "uniqueItems" = true ∧ SomePair (fun x y => x.itemEq y = true) xs) ∧
      (¬ SomePair Json.Conflates xs →
        ((∃ i, ReportsAt definitions rule (.arr xs) s [.item i] "uniqueItems") ↔
          flagged s "uniqueItems" = true ∧ SomePair Json.Equal xs)) := by
  refine ⟨fun a b => ⟨Json.equal_iff_itemEq a b, Json.itemEq_iff_counted a b⟩,
    fun v s hcomes => ⟨hcomes.reports_iff, fun hapart => ?_⟩,
    fun xs s hcomes => ⟨hcomes.reports_iff, fun hapart => ?_⟩⟩
  · rw [hcomes.reports_iff]
    refine exists_congr fun members => and_congr_right fun hmembers => forall₂_congr fun e he => ?_
    rw [Json.equal_iff_itemEq, and_iff_left (hapart members hmembers e he), Bool.not_eq_true]
  · rw [hcomes.reports_iff]
    refine and_congr_right fun _ => ⟨?_, ?_⟩
    · rintro ⟨i, k, x, y, hk, hx, hy, heq⟩
      have hequal : x.Equal y :=
        (Json.equal_iff_itemEq x y).2 ⟨heq, fun h => hapart ⟨i, k, x, y, hk, hx, hy, h⟩⟩
      exact ⟨i, k, x, y, hk, hx, hy, hequal⟩
    · rintro ⟨i, k, x, y, hk, hx, hy, hequal⟩
      exact ⟨i, k, x, y, hk, hx, hy, ((Json.equal_iff_itemEq x y).1 hequal).1⟩

/-- Of three rows without booleans the third is reported, as the first has its value; and one of
them is reported that is not in an enumeration of the others. -/
theorem numberRows_reports :
    let rows : List Json := [.arr [.int 1], .arr [.int 2], .arr [.int 1]]
    let unique : Schema := [("uniqueItems", .bool true)]
    let others : Schema := [("enum", .arr [.arr [.int 2], .arr [.int 1, .int 1]])]
    ComesToItems [] none rows unique ∧ ¬ SomePair Json.Conflates rows ∧
      (∃ i, ReportsAt [] none (.arr rows) unique [.item i] "uniqueItems") ∧
      ComesToEnum [] none (.arr [.int 1]) others ∧
      ReportsAt [] none (.arr [.int 1]) others [] "enum" := by
  intro rows unique others
  obtain ⟨hequal, henum, hitems⟩ := check_reports_equality [] none
  have hcomes : ComesToItems [] none rows unique := ⟨⟨rfl, rfl, rfl, rfl, rfl, rfl⟩, rfl, rfl⟩
  have hcomes' : ComesToEnum [] none (.arr [.int 1]) others := ⟨rfl, rfl, rfl, rfl, rfl, rfl⟩
  have hcounted : ∀ x ∈ rows, x.counted = x := by simp [rows, Json.counted, Json.countedList]
  have hplain {x y : Json} (hx : x ∈ rows) (hy : y ∈ rows) : ¬ x.Conflates y := by
    rw [← hcounted x hx, ← hcounted y hy]
    exact Json.not_conflates_counted x y
  have hapart : ¬ SomePair Json.Conflates rows := fun ⟨_, _, _, _, _, hx, hy, h⟩ =>
    hplain (List.mem_of_getElem? hx) (List.mem_of_getElem? hy) h
  have hrepeats : SomePair Json.Equal rows :=
    ⟨2, 0, .arr [.int 1], .arr [.int 1], by decide, rfl, rfl,
      (hequal _ _).1.2 ⟨by decide, hplain (by simp [rows]) (by simp [rows])⟩⟩
  refine ⟨hcomes, hapart, ((hitems rows unique hcomes).2 hapart).2 ⟨rfl, hrepeats⟩, hcomes', ?_⟩
  exact (henum _ others hcomes').1.2 ⟨_, ⟨_, rfl, rfl⟩, by decide⟩

/-- A row of true passes for a row of one: the check reports it as a duplicate, and does not
report it where it is not in the enumeration.  The two rows are not equal. -/
theorem flagRow_passes_for_numberRow :
    let rows : List Json := [.arr [.bool true], .arr [.int 1]]
    (∃ i, ReportsAt [] none (.arr rows) [("uniqueItems", .bool true)] [.item i] "uniqueItems") ∧
      Check.run (m := Except Fault) [] none (.arr [.bool true])
        (.obj [("enum", .arr [.arr [.int 1]])]) = .ok none ∧
      ¬ (Json.arr [.bool true]).Equal (.arr [.int 1]) := by
  refine ⟨⟨1, _, rfl, rfl, rfl⟩, rfl, fun hequal => ?_⟩
  have hfacing : Json.Facing (.arr [.bool true]) (.arr [.int 1]) (.bool true) (.int 1) :=
    .item (i := 0) rfl rfl (.here _ _)
  exact absurd (hfacing.equal hequal).isBool_eq (by decide)

end ApiTree
