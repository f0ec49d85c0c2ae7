import ApiTree.Proofs.Conformance.Keywords

/-!
# ApiTree.Proofs.Conformance.Decision

Checking decides satisfaction.

* `check_decides_satisfaction` — over guarded definitions there is one satisfaction, and
  where keywords have the right form and no divisor is met with rounding, a check gives a
  verdict, which is clean exactly where the value satisfies the schema.
* `run_multipleOf_tooLarge` — without that condition there may be no verdict at all.
-/

namespace ApiTree

namespace Check

open Schema

section Whole

variable {definitions : Table String Json} {rule : Option Conforms} {s : Schema}
  {R : Json → Json → Prop} {sub : Json → Json → Except Fault Verdict}

/-- The constraints of the value's own kind are decided. -/
theorem decides_ofKind {v : Json} (hs : Formed definitions rule s)
    (href : Table.find? s "$ref" = none)
    (hexact : ∀ x d, v.number? = some x → HasNumber s "multipleOf" d → x.dividesExactly d = true)
    (hsub : ∀ w t, Leads definitions (v, .obj s) (w, t) → Decides (sub w t) (R w t)) :
    Decides (ofKind sub (answering rule) v s)
      ((∀ x, v.number? = some x → AdmitsNumber s x) ∧ (∀ t, v = .str t → AdmitsText rule s t) ∧
        (∀ xs, v = .arr xs → AdmitsArray R s xs) ∧ ∀ ms, v = .obj ms → AdmitsObject R s ms) := by
  cases v with
  | null => exact decides_ok (by simp [Json.number?])
  | bool b => exact decides_ok (by simp [Json.number?])
  | int n =>
      exact decides_congr (decides_onValue (decides_ofNumber hs rfl fun d => hexact _ d rfl))
        (by simp [Json.number?])
  | float x =>
      exact decides_congr (decides_onValue (decides_ofNumber hs rfl fun d => hexact _ d rfl))
        (by simp [Json.number?])
  | str text =>
      show Decides (orElse (onValue (ofSize text.length s "minLength" "maxLength" _ _)) fun _ =>
        ofText (answering rule) text s) _
      refine decides_congr (decides_orElse (decides_onValue (decides_ofSize text.length
        (hs "minLength") (hs "maxLength"))) (decides_ofText hs text)) ?_
      simp only [Json.number?, reduceCtorEq, false_imp_iff, implies_true, true_and, and_true,
        Json.str.injEq, forall_eq']
      constructor
      · rintro ⟨hlength, hpattern, hformat⟩
        exact ⟨hlength, hpattern, hformat⟩
      · rintro ⟨hlength, hpattern, hformat⟩
        exact ⟨hlength, hpattern, hformat⟩
  | arr xs => exact decides_congr (decides_ofArray href hsub hs) (by simp [Json.number?])
  | obj ms => exact decides_congr (decides_ofObject hs href hsub) (by simp [Json.number?])

/-- One level is decided, when satisfaction is decided where it leads. -/
theorem decides_ofSchema {v : Json} (hs : Formed definitions rule s)
    (href : Table.find? s "$ref" = none)
    (hexact : ∀ x d, v.number? = some x → HasNumber s "multipleOf" d → x.dividesExactly d = true)
    (hsub : ∀ w t, Leads definitions (v, .obj s) (w, t) → Decides (sub w t) (R w t)) :
    Decides (ofSchema sub (answering rule) v s)
      ((v = .null ∧ Flags s "nullable") ∨ Admits R rule s v) := by
  have hnull : (v.kind == "NoneType" && flagged s "nullable") = true ↔
      v = .null ∧ Flags s "nullable" := by
    rw [Bool.and_eq_true, flagged_iff (hs "nullable")]
    exact and_congr_left' (by cases v <;> simp [Json.kind])
  have hsubs {keyword : String} (hkeyword : keyword ∈ ["allOf", "anyOf", "oneOf"])
      {ts : List Json} (h : Table.find? s keyword = some (.arr ts)) :
      ∀ t ∈ ts, Decides (sub v t) (R v t) :=
    fun t ht => hsub v t (leads_in_place href hkeyword h ht)
  have hall : Decides (do firstOf (sub v) (← listed s "allOf"))
      (∀ ts, Table.find? s "allOf" = some (.arr ts) → ∀ t ∈ ts, R v t) := by
    obtain ⟨ts, hts, hlisted⟩ | ⟨hnone, hlisted⟩ := listed_eq_ok (s := s) (hs "allOf")
    · exact decides_bind hlisted
        (decides_congr (decides_firstOf (hsubs (by simp) hts)) (by simp [hts]))
    · exact decides_bind hlisted (decides_ok (by simp [hnone]))
  have hany : Decides (ofAny sub v s)
      (∀ ts, Table.find? s "anyOf" = some (.arr ts) → ∃ t ∈ ts, R v t) := by
    rw [ofAny]
    cases hj : Table.find? s "anyOf" with
    | none => exact decides_ok (by simp)
    | some j =>
        have hform : isList isObject j = true := hs "anyOf" j hj
        cases j with
        | arr ts =>
            obtain ⟨clean, hclean, hiff⟩ := someClean_eq_ok (hsubs (by simp) hj)
            refine decides_bind rfl (decides_bind hclean (decides_ok ?_))
            cases clean <;> simp [← hiff]
        | _ => simp [isList] at hform
  have hone : Decides (ofOne sub v s)
      (∀ ts, Table.find? s "oneOf" = some (.arr ts) → ExactlyOne (R v) ts) := by
    rw [ofOne]
    cases hj : Table.find? s "oneOf" with
    | none => exact decides_ok (by simp)
    | some j =>
        have hform : isList isObject j = true := hs "oneOf" j hj
        cases j with
        | arr ts =>
            obtain ⟨n, hn, -, hiff⟩ := countClean_eq_ok (hsubs (by simp) hj)
            refine decides_bind rfl (decides_bind hn (decides_ok ?_))
            simp [← hiff]
        | _ => simp [isList] at hform
  rw [ofSchema]
  by_cases hskip : (v.kind == "NoneType" && flagged s "nullable") = true
  · rw [if_pos hskip]
    exact decides_ok (iff_of_true rfl (.inl (hnull.1 hskip)))
  · rw [if_neg hskip]
    refine decides_congr (decides_orElse hall (decides_orElse hany (decides_orElse hone
      (decides_orElse (decides_onValue (decides_ofType v hs)) (decides_orElse
        (decides_onValue (decides_ofEnum v hs)) (decides_ofKind hs href hexact hsub)))))) ?_
    rw [or_iff_right (mt hnull.2 hskip)]
    constructor
    · rintro ⟨hall, hany, hone, htype, henum, hnumber, htext, harray, hobject⟩
      exact ⟨hall, hany, hone, htype, henum, hnumber, htext, harray, hobject⟩
    · rintro ⟨hall, hany, hone, htype, henum, hnumber, htext, harray, hobject⟩
      exact ⟨hall, hany, hone, htype, henum, hnumber, htext, harray, hobject⟩

/-- With enough fuel a check decides satisfaction. -/
theorem decides_within (hR : IsSatisfaction definitions rule R) (hguarded : Guarded definitions)
    (fuel : Nat) {v t : Json} (hfuel : Enough definitions fuel v t)
    (htyped : WellTyped definitions rule v t) (hexact : DividesExactly definitions v t) :
    Decides (within definitions (answering rule) fuel v t) (R v t) := by
  induction fuel generalizing v t with
  | zero => exact absurd hfuel.one_lt (by omega)
  | succ fuel ih =>
      have hsub : ∀ w u, Leads definitions (v, t) (w, u) →
          Decides (within definitions (answering rule) fuel w u) (R w u) := fun w u hl =>
        ih (hfuel.of_leads hguarded hl) (fun w' u' hway => htyped w' u' (.head hl hway))
          (fun w' ms hway => hexact w' ms (.head hl hway))
      obtain ⟨s, rfl, hs⟩ := exists_formed (htyped v t .refl)
      refine decides_congr ?_ (hR v (.obj s)).symm
      rw [within, Meets]
      cases href : Table.find? s "$ref" with
      | none => exact decides_ofSchema hs href (fun x d => hexact v s .refl x d) hsub
      | some ref =>
          have hdefined : (follow definitions ref).isOk = true := hs "$ref" ref href
          cases hfollow : follow definitions ref with
          | error e => simp [hfollow, Except.isOk, Except.toBool] at hdefined
          | ok u =>
              refine decides_bind hfollow (decides_congr
                (hsub v u (leads_by_reference href hfollow)) ?_)
              simp only [hfollow, Except.ok.injEq, exists_eq_left']

/-- A check decides satisfaction: it has fuel enough for the deepest schema on its way. -/
theorem decides_run (hR : IsSatisfaction definitions rule R) (hguarded : Guarded definitions)
    {v t : Json} (htyped : WellTyped definitions rule v t)
    (hexact : DividesExactly definitions v t) :
    Decides (run (m := Except Fault) definitions (answering rule) v t) (R v t) :=
  decides_within hR hguarded _ (enough_of_budget_le le_rfl) htyped hexact

end Whole

end Check

/-- Over guarded definitions there is exactly one satisfaction.  Where the keywords on the way
have the right form and no division is rounded, a check gives a verdict, which is clean
exactly where the value satisfies the schema. -/
theorem check_decides_satisfaction (definitions : Table String Json) (rule : Option Conforms)
    (hguarded : Guarded definitions) :
    (∃! Sat, IsSatisfaction definitions rule Sat) ∧
      ∀ Sat, IsSatisfaction definitions rule Sat →
        ∀ v s, WellTyped definitions rule v s → DividesExactly definitions v s →
          ∃ verdict,
            Check.run (m := Except Fault) definitions (Check.answering rule) v s = .ok verdict ∧
              (verdict = none ↔ Sat v s) := by
  exact ⟨existsUnique_satisfaction hguarded, fun _ hR _ _ htyped hexact =>
    Check.decides_run hR hguarded htyped hexact⟩

/-- Beside a double that is not zero, an integer beyond the doubles has no verdict. -/
theorem run_multipleOf_tooLarge {n : ℤ} {d : Double} (hd : d.isZero = false)
    (hn : (Number.int n).toDouble? = none) :
    Check.run (m := Except Fault) [] none (.int n) (.obj [("multipleOf", .float d)]) =
      .error .tooLarge := by
  have hmultiple : Check.ofMultiple (.int n) [("multipleOf", .float d)] = .error .tooLarge := by
    simp [Check.ofMultiple, Table.find?, Json.truthy, Json.toNumber?, hd, Number.isMultipleOf?, hn]
  have hnumber : Check.ofNumber (.int n) [("multipleOf", .float d)] = .error .tooLarge := by
    rw [Check.ofNumber, hmultiple]
    rfl
  show Check.onValue (m := Except Fault) (Check.ofNumber (.int n) [("multipleOf", .float d)]) = _
  rw [hnumber]
  rfl

/-- The schema of a component. -/
def component (name : String) : Json := .obj (Reference.schema name)

/-- Trees of even numbers: a leaf is an even number, a fork is two trees or more. -/
def evenTrees : Table String Json :=
  [("Tree", .obj [("oneOf", .arr [component "Leaf", component "Fork"])]),
    ("Leaf", .obj [("type", .str "integer"), ("multipleOf", .int 2)]),
    ("Fork", .obj [("type", .str "array"), ("minItems", .int 2), ("items", component "Tree")])]

/-- The schemas to which the trees lead. -/
def evenTreeSchemas : List Json := evenTrees.values ++ ["Tree", "Leaf", "Fork"].map component

theorem next_mem_evenTreeSchemas : ∀ s ∈ evenTreeSchemas,
    ∀ t ∈ inPlace evenTrees s ++ inside s, t ∈ evenTreeSchemas := by
  decide

/-- From the trees the way in place goes by the leaves and the forks, where it ends. -/
theorem guarded_evenTrees : Guarded evenTrees := by
  refine guarded_of_definitions fun name d hd => ?_
  have hway : ∀ e ∈ evenTrees, ∃ S ∈ [[], evenTreeSchemas.tail.erase (component "Tree")],
      (∀ t ∈ e.2 :: S, ∀ u ∈ inPlace evenTrees t, u ∈ S) ∧ e.2 ∉ S := by
    decide
  obtain ⟨S, -, hclosed, hnot⟩ := hway (name, d) (Table.mem_of_find? hd)
  exact not_returns hclosed hnot

/-- The trees of even numbers have keywords of the right form. -/
theorem wellTyped_evenTrees {v s : Json} (hs : s ∈ evenTreeSchemas) :
    WellTyped evenTrees none v s := by
  have hformed : ∀ t ∈ evenTreeSchemas, Schema.isFormed evenTrees none t = true := by decide
  exact fun w t hway => hformed t (mem_of_leads next_mem_evenTreeSchemas hs hway)

/-- In trees of even numbers there is one divisor, which is an integer of one digit. -/
theorem dividesExactly_evenTrees {v s : Json} (hs : s ∈ evenTreeSchemas) :
    DividesExactly evenTrees v s := by
  have hdivisor : ∀ t ∈ evenTreeSchemas, ∀ d,
      (t.get? "multipleOf").bind Json.number? = some d → d = .int 2 := by
    simp [evenTreeSchemas, evenTrees, Table.values, component, Reference.schema, Json.get?,
      Table.find?_cons, Json.number?]
  intro w ms hway x d _ hd
  obtain rfl := hdivisor _ (mem_of_leads next_mem_evenTreeSchemas hs hway) d hd
  cases x with
  | int n => rfl
  | float y => exact (by decide : (Number.int 2).isExact = true)

/-- Of two trees of numbers the one with an odd leaf does not satisfy the schema of trees of
even numbers; a number of 401 digits beside the divisor 0.5 has no verdict. -/
theorem evenTrees_check :
    Guarded evenTrees ∧
      (∀ Sat, IsSatisfaction evenTrees none Sat →
        Sat (.arr [.int 4, .arr [.int 6, .int 8]]) (component "Tree") ∧
          ¬ Sat (.arr [.int 4, .arr [.int 6, .int 3]]) (component "Tree")) ∧
      Check.run (m := Except Fault) [] none (.int (10 ^ 400))
        (.obj [("multipleOf", .float (.finite false (2 ^ 52) (-53)))]) = .error .tooLarge := by
  refine ⟨guarded_evenTrees, fun Sat hSat => ?_,
    run_multipleOf_tooLarge (by decide) (by decide +kernel)⟩
  have htree : component "Tree" ∈ evenTreeSchemas := by decide
  obtain ⟨-, hdecides⟩ := check_decides_satisfaction evenTrees none guarded_evenTrees
  constructor
  · obtain ⟨verdict, hrun, hiff⟩ := hdecides Sat hSat _ _ (wellTyped_evenTrees htree)
      (dividesExactly_evenTrees htree)
    exact hiff.1 (Except.ok.inj hrun).symm
  · obtain ⟨verdict, hrun, hiff⟩ := hdecides Sat hSat _ _ (wellTyped_evenTrees htree)
      (dividesExactly_evenTrees htree)
    rw [← hiff]
    rintro rfl
    cases hrun

end ApiTree
