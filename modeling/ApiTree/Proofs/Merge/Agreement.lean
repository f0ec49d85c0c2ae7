import ApiTree.Proofs.Json.Equality
import ApiTree.Proofs.Merge.United

/-!
# ApiTree.Proofs.Merge.Agreement

When two declarations of one operation can stand for each other
(`Operation.Agrees`): the parameters beside the path are the same ones, declared
alike; captures at one place of the path have one schema, whatever they are
called; both have a body or neither has, and where the bodies share a content
type they share its schema.

* `mergeOperations_eq_ok_iff_matches` — operations merge exactly when their parameters
  match by key and their bodies agree, and then into `Operation.united`;
* `mergeOperations_eq_ok_iff` — operations whose captures have one spelling do so
  exactly when they agree;
* `Operation.united_agrees_iff` — what two operations make together agrees with
  a third one exactly when both of them do.

Agreement is no equivalence: an operation whose body lacks a content type agrees
with operations that clash over it.  So a merged operation has to remember every
content type that went into it, which the second statement says it does.
-/

namespace ApiTree

/-! ## parameters -/

/-- The parameters in the path, in order. -/
def captured (ps : List Parameter) : List Parameter := ps.filter (·.location == "path")

/-- The parameters beside the path: those in the query and in headers. -/
def sought (ps : List Parameter) : List Parameter := ps.filter (·.location != "path")

/-- The captures are the parameters in the path. -/
theorem mem_captured {ps : List Parameter} {p : Parameter} :
    p ∈ captured ps ↔ p ∈ ps ∧ p.location = "path" := by
  simp [captured]

/-- The keys of captures are their names in the path. -/
theorem keys_captured (ps : List Parameter) :
    (captured ps).map Parameter.key = ((captured ps).map (·.name)).map ("path", ·) := by
  rw [List.map_map]
  refine List.map_congr_left fun p hp => ?_
  simp [Parameter.key, (mem_captured.1 hp).2]

/-- The other parameters are those outside the path. -/
theorem mem_sought {ps : List Parameter} {p : Parameter} :
    p ∈ sought ps ↔ p ∈ ps ∧ p.location ≠ "path" := by
  simp [sought]

/-- Two parameters of one key are declared alike. -/
def Parameter.Alike (p q : Parameter) : Prop :=
  Schema.sameOption p.schema q.schema = true ∧ p.required.getD false = q.required.getD false

theorem Parameter.alike_symm {p q : Parameter} (h : p.Alike q) : q.Alike p :=
  ⟨by rw [Schema.sameOption_comm]; exact h.1, h.2.symm⟩

theorem Parameter.alike_trans {p q r : Parameter} (hpq : p.Alike q) (hqr : q.Alike r) :
    p.Alike r := ⟨Schema.sameOption_trans hpq.1 hqr.1, hpq.2.trans hqr.2⟩

/-- Two parameters do not disagree exactly if they are declared alike. -/
theorem Parameter.disagreement?_eq_none_iff (p q : Parameter) :
    p.disagreement? q = none ↔ p.Alike q := by
  by_cases hs : Schema.sameOption p.schema q.schema = true <;>
    by_cases hr : p.required.getD false = q.required.getD false <;>
    simp [Parameter.disagreement?, Parameter.Alike, hs, hr]

/-- Two lists of parameters can stand for each other. -/
structure ParametersAgree (ps qs : List Parameter) : Prop where
  keys : ∀ k, k ∈ (sought ps).map Parameter.key ↔ k ∈ (sought qs).map Parameter.key
  alike : ∀ p ∈ sought ps, ∀ q ∈ sought qs, p.key = q.key → p.Alike q
  captures : ∀ (i : Nat) p q, (captured ps)[i]? = some p → (captured qs)[i]? = some q →
    Schema.sameOption p.schema q.schema = true

namespace ParametersAgree

variable {ps qs rs : List Parameter}

/-- Lists of parameters that can stand for each other do so in both directions. -/
theorem symm (h : ParametersAgree ps qs) : ParametersAgree qs ps where
  keys k := (h.keys k).symm
  alike q hq p hp hk := Parameter.alike_symm (h.alike p hp q hq hk.symm)
  captures i q p hq hp := by
    rw [Schema.sameOption_comm]
    exact h.captures i p q hp hq

/-- To be able to stand for each other is transitive if the last list has no more captures. -/
theorem trans (hlen : (captured rs).length ≤ (captured qs).length) (hpq : ParametersAgree ps qs)
    (hqr : ParametersAgree qs rs) : ParametersAgree ps rs where
  keys k := (hpq.keys k).trans (hqr.keys k)
  alike p hp r hr hk := by
    obtain ⟨q, hq, hqk⟩ := List.mem_map.1 ((hpq.keys p.key).1 (List.mem_map.2 ⟨p, hp, rfl⟩))
    exact Parameter.alike_trans (hpq.alike p hp q hq hqk.symm) (hqr.alike q hq r hr (hqk.trans hk))
  captures i p r hp hr := by
    have hi : i < (captured qs).length :=
      Nat.lt_of_lt_of_le (List.getElem?_eq_some_iff.1 hr).1 hlen
    have hq := List.getElem?_eq_getElem hi
    exact Schema.sameOption_trans (hpq.captures i p _ hp hq) (hqr.captures i _ r hq hr)

end ParametersAgree

/-- Parameters without repeated keys whose captures have the given names, all of
them required. -/
structure SpelledBy (names : List String) (ps : List Parameter) : Prop where
  names : (captured ps).map (·.name) = names
  keys : (ps.map Parameter.key).Nodup
  required : ∀ p ∈ captured ps, p.required = some true

namespace SpelledBy

variable {names : List String} {ps qs : List Parameter}

/-- Captures that are spelled by names spell each name once. -/
theorem nodup_names (h : SpelledBy names ps) : names.Nodup := by
  have hkeys : ((captured ps).map Parameter.key).Nodup :=
    h.keys.sublist (List.filter_sublist.map _)
  rw [keys_captured, h.names] at hkeys
  exact hkeys.of_map _

theorem length_captured (h : SpelledBy names ps) : (captured ps).length = names.length := by
  rw [← h.names, List.length_map]

/-- Captures of one name in two lists stand at one place. -/
theorem getElem?_of_name_eq (hp : SpelledBy names ps) (hq : SpelledBy names qs) {p q : Parameter}
    (hpm : p ∈ captured ps) (hqm : q ∈ captured qs) (h : p.name = q.name) :
    ∃ i : Nat, (captured ps)[i]? = some p ∧ (captured qs)[i]? = some q := by
  obtain ⟨i, hi⟩ := List.mem_iff_getElem?.1 hpm
  obtain ⟨j, hj⟩ := List.mem_iff_getElem?.1 hqm
  have hni : names[i]? = some p.name := by rw [← hp.names, List.getElem?_map, hi]; rfl
  have hnj : names[j]? = some q.name := by rw [← hq.names, List.getElem?_map, hj]; rfl
  have hij : i = j := by
    rw [← h, ← hni] at hnj
    exact (List.getElem?_inj (List.getElem?_eq_some_iff.1 hni).1 hp.nodup_names).1 hnj.symm
  exact ⟨i, hi, hij ▸ hj⟩

end SpelledBy

/-! ## parameters by key -/

/-- Two lists of parameters have the same keys, and what counts under each is declared alike. -/
structure ParametersMatch (ps qs : List Parameter) : Prop where
  keys : ∀ k, k ∈ (parameterTable ps).keys ↔ k ∈ (parameterTable qs).keys
  alike : ∀ k p q, (parameterTable ps).find? k = some p → (parameterTable qs).find? k = some q →
    p.Alike q

namespace ParametersMatch

variable {ps qs rs : List Parameter}

theorem symm (h : ParametersMatch ps qs) : ParametersMatch qs ps where
  keys k := (h.keys k).symm
  alike k q p hq hp := Parameter.alike_symm (h.alike k p q hp hq)

theorem trans (hpq : ParametersMatch ps qs) (hqr : ParametersMatch qs rs) :
    ParametersMatch ps rs where
  keys k := (hpq.keys k).trans (hqr.keys k)
  alike k p r hp hr := by
    have hk : k ∈ (parameterTable qs).keys := (hpq.keys k).1 ((Table.mem_keys_iff _ k).2 ⟨p, hp⟩)
    obtain ⟨q, hq⟩ := (Table.mem_keys_iff _ k).1 hk
    exact Parameter.alike_trans (hpq.alike k p q hp hq) (hqr.alike k q r hq hr)

end ParametersMatch

/-- No key is on one side only. -/
theorem oneSided_eq_nil_iff (ps qs : List Parameter) :
    (parameterTable ps).keys.filter (!(parameterTable qs).has ·) = [] ↔
      ∀ k ∈ (parameterTable ps).keys, k ∈ (parameterTable qs).keys := by
  simp only [List.filter_eq_nil_iff, Bool.not_eq_true', Bool.not_eq_false, Table.has_iff_mem_keys]

/-- Two lists of parameters say the same; of parameters with one key the last one counts. -/
theorem parametersDisagree?_eq_none_iff_match (ps qs : List Parameter) :
    parametersDisagree? ps qs = none ↔ ParametersMatch ps qs := by
  have hshared : (parameterTable ps).findSome? (fun e =>
      ((parameterTable qs).find? e.1).bind e.2.disagreement?) = none ↔
        ∀ k p q, (parameterTable ps).find? k = some p → (parameterTable qs).find? k = some q →
          p.Alike q := by
    simp only [List.findSome?_eq_none_iff, Option.bind_eq_none_iff,
      Parameter.disagreement?_eq_none_iff]
    constructor
    · exact fun h k p q hp hq => h (k, p) (Table.mem_of_find? hp) q hq
    · exact fun h e he q hq =>
        h e.1 e.2 q (Table.find?_of_mem (Table.nodup_keys_ofList _) he) hq
  have hmatch : ParametersMatch ps qs ↔
      ((∀ k ∈ (parameterTable ps).keys, k ∈ (parameterTable qs).keys) ∧
        ∀ k ∈ (parameterTable qs).keys, k ∈ (parameterTable ps).keys) ∧
      ∀ k p q, (parameterTable ps).find? k = some p → (parameterTable qs).find? k = some q →
        p.Alike q :=
    ⟨fun h => ⟨⟨fun k => (h.keys k).1, fun k => (h.keys k).2⟩, h.alike⟩,
      fun h => ⟨fun k => ⟨h.1.1 k, h.1.2 k⟩, h.2⟩⟩
  rw [hmatch, ← hshared, ← oneSided_eq_nil_iff, ← oneSided_eq_nil_iff, ← List.append_eq_nil_iff]
  simp only [parametersDisagree?]
  split
  · next h => simp [h]
  · next h => simp [h]

section ByKey

variable {names : List String} {ps qs : List Parameter}

/-- Parameters without repeated keys are a table as they stand. -/
theorem parameterTable_eq (h : (ps.map Parameter.key).Nodup) :
    parameterTable ps = ps.map fun p => (p.key, p) :=
  Table.ofList_of_nodup (by simpa [Table.keys, Function.comp_def] using h)

/-- The keys of the table are those of the parameters. -/
theorem keys_parameterTable (h : (ps.map Parameter.key).Nodup) :
    (parameterTable ps).keys = ps.map Parameter.key := by
  rw [parameterTable_eq h]
  simp [Table.keys, Function.comp_def]

/-- Under a key the table has the parameter of the key. -/
theorem find?_parameterTable_iff (h : (ps.map Parameter.key).Nodup) {k : String × String}
    {p : Parameter} : (parameterTable ps).find? k = some p ↔ p ∈ ps ∧ p.key = k := by
  have hn : (parameterTable ps).keys.Nodup := by rwa [keys_parameterTable h]
  have hmem : (k, p) ∈ parameterTable ps ↔ p ∈ ps ∧ p.key = k := by
    rw [parameterTable_eq h, List.mem_map]
    constructor
    · rintro ⟨q, hq, heq⟩
      obtain ⟨hk, rfl⟩ := Prod.mk.inj heq
      exact ⟨hq, hk⟩
    · rintro ⟨hp, rfl⟩
      exact ⟨p, hp, rfl⟩
  rw [← hmem]
  exact ⟨Table.mem_of_find?, Table.find?_of_mem hn⟩

/-- Parameters by key say the same, whatever the order. -/
theorem parametersDisagree?_eq_none_iff (hp : (ps.map Parameter.key).Nodup)
    (hq : (qs.map Parameter.key).Nodup) :
    parametersDisagree? ps qs = none ↔
      (ps.map Parameter.key ⊆ qs.map Parameter.key ∧ qs.map Parameter.key ⊆ ps.map Parameter.key) ∧
        ∀ p ∈ ps, ∀ q ∈ qs, p.key = q.key → p.Alike q := by
  rw [parametersDisagree?_eq_none_iff_match]
  constructor
  · rintro ⟨hkeys, halike⟩
    simp only [keys_parameterTable hp, keys_parameterTable hq] at hkeys
    refine ⟨⟨fun k => (hkeys k).1, fun k => (hkeys k).2⟩, fun p hpm q hqm hk => ?_⟩
    exact halike q.key p q ((find?_parameterTable_iff hp).2 ⟨hpm, hk⟩)
      ((find?_parameterTable_iff hq).2 ⟨hqm, rfl⟩)
  · rintro ⟨⟨hpq, hqp⟩, halike⟩
    refine ⟨fun k => ?_, fun k p q hfp hfq => ?_⟩
    · rw [keys_parameterTable hp, keys_parameterTable hq]
      exact ⟨fun hk => hpq hk, fun hk => hqp hk⟩
    · obtain ⟨hpm, rfl⟩ := (find?_parameterTable_iff hp).1 hfp
      obtain ⟨hqm, hk⟩ := (find?_parameterTable_iff hq).1 hfq
      exact halike p hpm q hqm hk.symm

/-- Parameters of one key stand in one place. -/
theorem location_eq_of_key_eq {p q : Parameter} (h : p.key = q.key) : p.location = q.location :=
  congrArg Prod.fst h

/-- Parameters with fewer keys have fewer keys outside the path. -/
theorem keys_sought_subset (h : ps.map Parameter.key ⊆ qs.map Parameter.key) :
    (sought ps).map Parameter.key ⊆ (sought qs).map Parameter.key := by
  intro k hk
  obtain ⟨p, hp, rfl⟩ := List.mem_map.1 hk
  obtain ⟨hp, hloc⟩ := mem_sought.1 hp
  obtain ⟨q, hq, hqk⟩ := List.mem_map.1 (h (List.mem_map.2 ⟨p, hp, rfl⟩))
  exact List.mem_map.2 ⟨q, mem_sought.2 ⟨hq, location_eq_of_key_eq hqk ▸ hloc⟩, hqk⟩

/-- Captures of one spelling have their keys in common. -/
theorem SpelledBy.keys_subset (hp : SpelledBy names ps) (hq : SpelledBy names qs)
    (h : (sought ps).map Parameter.key ⊆ (sought qs).map Parameter.key) :
    ps.map Parameter.key ⊆ qs.map Parameter.key := by
  intro k hk
  obtain ⟨p, hpm, rfl⟩ := List.mem_map.1 hk
  by_cases hloc : p.location = "path"
  · have hmem : p.name ∈ (captured qs).map (·.name) := by
      rw [hq.names, ← hp.names]
      exact List.mem_map.2 ⟨p, mem_captured.2 ⟨hpm, hloc⟩, rfl⟩
    obtain ⟨q, hqm, hqn⟩ := List.mem_map.1 hmem
    obtain ⟨hqm, hqloc⟩ := mem_captured.1 hqm
    exact List.mem_map.2 ⟨q, hqm, by simp [Parameter.key, hloc, hqloc, hqn]⟩
  · obtain ⟨q, hqm, hqk⟩ := List.mem_map.1
      (h (List.mem_map.2 ⟨p, mem_sought.2 ⟨hpm, hloc⟩, rfl⟩))
    exact List.mem_map.2 ⟨q, (mem_sought.1 hqm).1, hqk⟩

/-- Captures of one spelling that stand at one place have one key. -/
theorem SpelledBy.key_eq_of_getElem? (hp : SpelledBy names ps) (hq : SpelledBy names qs) {i : Nat}
    {p q : Parameter} (hi : (captured ps)[i]? = some p) (hj : (captured qs)[i]? = some q) :
    p.key = q.key := by
  have hni : names[i]? = some p.name := by rw [← hp.names, List.getElem?_map, hi]; rfl
  have hnj : names[i]? = some q.name := by rw [← hq.names, List.getElem?_map, hj]; rfl
  have hname : p.name = q.name := Option.some.inj (hni.symm.trans hnj)
  have hploc := (mem_captured.1 (List.mem_of_getElem? hi)).2
  have hqloc := (mem_captured.1 (List.mem_of_getElem? hj)).2
  rw [Parameter.key, Parameter.key, hploc, hqloc, hname]

/-- Parameters whose captures have one spelling disagree by key exactly when they
disagree by place. -/
theorem parametersDisagree?_eq_none_iff_agree (hp : SpelledBy names ps) (hq : SpelledBy names qs) :
    parametersDisagree? ps qs = none ↔ ParametersAgree ps qs := by
  rw [parametersDisagree?_eq_none_iff hp.keys hq.keys]
  constructor
  · rintro ⟨⟨hpq, hqp⟩, halike⟩
    refine ⟨fun k => ⟨fun hk => keys_sought_subset hpq hk, fun hk => keys_sought_subset hqp hk⟩,
      fun p hpm q hqm hk => halike p (mem_sought.1 hpm).1 q (mem_sought.1 hqm).1 hk,
      fun i p q hi hj => ?_⟩
    have hpm := (mem_captured.1 (List.mem_of_getElem? hi)).1
    have hqm := (mem_captured.1 (List.mem_of_getElem? hj)).1
    exact (halike p hpm q hqm (hp.key_eq_of_getElem? hq hi hj)).1
  · intro h
    refine ⟨⟨hp.keys_subset hq fun k => (h.keys k).1, hq.keys_subset hp fun k => (h.keys k).2⟩,
      fun p hpm q hqm hk => ?_⟩
    have hlocation := location_eq_of_key_eq hk
    by_cases hloc : p.location = "path"
    · have hpc := mem_captured.2 ⟨hpm, hloc⟩
      have hqc := mem_captured.2 ⟨hqm, hlocation ▸ hloc⟩
      obtain ⟨i, hi, hj⟩ := hp.getElem?_of_name_eq hq hpc hqc (congrArg Prod.snd hk)
      exact ⟨h.captures i p q hi hj, by rw [hp.required p hpc, hq.required q hqc]⟩
    · exact h.alike p (mem_sought.2 ⟨hpm, hloc⟩) q (mem_sought.2 ⟨hqm, hlocation ▸ hloc⟩) hk

end ByKey

/-! ## bodies -/

/-- Two bodies can stand for each other. -/
structure BodiesAgree (a b : Option RequestBody) : Prop where
  both : a.isSome = b.isSome
  contents : ∀ x y, a = some x → b = some y → ∀ ct u v, x.content.find? ct = some u →
    y.content.find? ct = some v → Schema.sameOption u.schema v.schema = true

namespace BodiesAgree

theorem symm {a b : Option RequestBody} (h : BodiesAgree a b) : BodiesAgree b a where
  both := h.both.symm
  contents y x hy hx ct v u hv hu := by
    rw [Schema.sameOption_comm]
    exact h.contents x y hx hy ct u v hu hv

/-- United bodies remember the content types of both. -/
theorem united_iff {a b c : Option RequestBody} (hb : ∀ y, b = some y → y.content.keys.Nodup)
    (hab : BodiesAgree a b) :
    BodiesAgree (unitedBodies a b) c ↔ BodiesAgree a c ∧ BodiesAgree b c := by
  cases a with
  | none =>
      have hnone : b = none := by simpa using hab.both.symm
      subst hnone
      simp [unitedBodies]
  | some x =>
      obtain ⟨y, rfl⟩ := Option.isSome_iff_exists.1 hab.both.symm
      have hfind : ∀ ct, (x.content.putAll y.content).find? ct =
          (y.content.find? ct).or (x.content.find? ct) := Table.find?_putAll _ (hb y rfl)
      constructor
      · intro h
        refine ⟨⟨h.both, ?_⟩, ⟨h.both, ?_⟩⟩
        · rintro _ z ⟨⟩ rfl ct u w hu hw
          cases hv : y.content.find? ct with
          | none => exact h.contents _ z rfl rfl ct u w (by simp [hfind, hu, hv]) hw
          | some v =>
              exact Schema.sameOption_trans (hab.contents x y rfl rfl ct u v hu hv)
                (h.contents _ z rfl rfl ct v w (by simp [hfind, hv]) hw)
        · rintro _ z ⟨⟩ rfl ct v w hv hw
          exact h.contents _ z rfl rfl ct v w (by simp [hfind, hv]) hw
      · rintro ⟨hx, hy⟩
        refine ⟨hx.both, ?_⟩
        rintro _ z ⟨⟩ rfl ct u w hu hw
        rw [hfind] at hu
        rcases Option.or_eq_some_iff.1 hu with hu | ⟨-, hu⟩
        · exact hy.contents y z rfl rfl ct u w hu hw
        · exact hx.contents x z rfl rfl ct u w hu hw

end BodiesAgree

/-- Contents merge exactly if they have the same schema wherever both have one. -/
theorem mergeContent_eq_ok_iff {t u r : Table String MediaType} (hu : u.keys.Nodup) :
    mergeContent t u = .ok r ↔
      (∀ ct a b, t.find? ct = some a → u.find? ct = some b →
        Schema.sameOption a.schema b.schema = true) ∧ r = t.putAll u := by
  let combine (ct : String) (a b : MediaType) : Except ConflictCause MediaType :=
    if Schema.sameOption a.schema b.schema then .ok b else .error (.bodySchemas ct)
  have hcombine : ∀ ct a b x, combine ct a b = .ok x →
      x = b ∧ Schema.sameOption a.schema b.schema = true := by
    intro ct a b x h
    by_cases hs : Schema.sameOption a.schema b.schema = true <;> simp_all [combine]
  have hright : ∀ ct a b x, combine ct a b = .ok x → x = b :=
    fun ct a b x h => (hcombine ct a b x h).1
  change Table.mergeM combine t u = .ok r ↔ _
  constructor
  · intro h
    refine ⟨fun ct a b ha hb => ?_, Table.mergeM_eq_putAll hright h⟩
    have hm := Table.find?_mergeM hu h ct
    rw [ha, hb] at hm
    generalize r.find? ct = x at hm
    cases hm with
    | both hx => exact (hcombine ct a b _ hx).2
  · rintro ⟨hsame, rfl⟩
    obtain ⟨r, hr⟩ := Table.exists_mergeM (f := combine) hu fun ct a b ha hb =>
      ⟨b, by simp [combine, hsame ct a b ha hb]⟩
    rw [hr, Table.mergeM_eq_putAll hright hr]

/-- Bodies merge exactly if they can stand for each other, and then to both together. -/
theorem mergeBodies_eq_ok_iff {a b m : Option RequestBody}
    (hb : ∀ y, b = some y → y.content.keys.Nodup) :
    mergeBodies a b = .ok m ↔ BodiesAgree a b ∧ m = unitedBodies a b := by
  cases a with
  | none =>
      cases b with
      | none =>
          have h : BodiesAgree none none := ⟨rfl, by simp⟩
          simp [mergeBodies, unitedBodies, h, eq_comm]
      | some y =>
          have h : ¬ BodiesAgree none (some y) := fun h => by simpa using h.both
          simp [mergeBodies, h]
  | some x =>
      cases b with
      | none =>
          have h : ¬ BodiesAgree (some x) none := fun h => by simpa using h.both
          simp [mergeBodies, h]
      | some y =>
          have hagree : BodiesAgree (some x) (some y) ↔ ∀ ct a b, x.content.find? ct = some a →
              y.content.find? ct = some b → Schema.sameOption a.schema b.schema = true :=
            ⟨fun h => h.contents x y rfl rfl, fun h => ⟨rfl, by rintro _ _ ⟨⟩ ⟨⟩; exact h⟩⟩
          rw [hagree]
          cases hm : mergeContent x.content y.content with
          | error e =>
              simp only [mergeBodies, hm, bind, Except.bind, reduceCtorEq, false_iff, not_and]
              intro h
              rw [(mergeContent_eq_ok_iff (hb y rfl)).2 ⟨h, rfl⟩] at hm
              simp at hm
          | ok r =>
              obtain ⟨hsame, rfl⟩ := (mergeContent_eq_ok_iff (hb y rfl)).1 hm
              simp only [mergeBodies, hm, bind, Except.bind, pure, Except.pure, unitedBodies,
                Except.ok.injEq]
              exact ⟨fun h => ⟨hsame, h.symm⟩, fun h => h.2.symm⟩

/-! ## operations -/

namespace Operation

/-- Two declarations of one operation match by the keys of their parameters. -/
def Matches (a b : Operation) : Prop :=
  ParametersMatch a.parameters b.parameters ∧ BodiesAgree a.requestBody b.requestBody

theorem Matches.symm {a b : Operation} (h : a.Matches b) : b.Matches a := ⟨h.1.symm, h.2.symm⟩

theorem matches_comm (a b : Operation) : a.Matches b ↔ b.Matches a :=
  ⟨Matches.symm, Matches.symm⟩

/-- Operations together match what both of them match. -/
theorem united_matches_iff {a b c : Operation} (hb : b.Proper) (hab : a.Matches b) :
    (a.united b).Matches c ↔ a.Matches c ∧ b.Matches c := by
  have hbodies := BodiesAgree.united_iff (c := c.requestBody) hb.content hab.2
  constructor
  · rintro ⟨hparameters, hbody⟩
    obtain ⟨hac, hbc⟩ := hbodies.1 hbody
    exact ⟨⟨hparameters, hac⟩, hab.1.symm.trans hparameters, hbc⟩
  · rintro ⟨hac, hbc⟩
    exact ⟨hac.1, hbodies.2 ⟨hac.2, hbc.2⟩⟩

/-- An operation matches two together exactly if it matches each. -/
theorem matches_united_iff {a b c : Operation} (hc : c.Proper) (hbc : b.Matches c) :
    a.Matches (b.united c) ↔ a.Matches b ∧ a.Matches c := by
  rw [matches_comm, united_matches_iff hc hbc, matches_comm b, matches_comm c]

/-- Two declarations of one operation can stand for each other. -/
def Agrees (a b : Operation) : Prop :=
  ParametersAgree a.parameters b.parameters ∧ BodiesAgree a.requestBody b.requestBody

theorem Agrees.symm {a b : Operation} (h : a.Agrees b) : b.Agrees a := ⟨h.1.symm, h.2.symm⟩

theorem agrees_comm (a b : Operation) : a.Agrees b ↔ b.Agrees a := ⟨Agrees.symm, Agrees.symm⟩

/-- How many captures an operation has. -/
def arity (op : Operation) : Nat := (captured op.parameters).length

@[simp] theorem arity_united (a b : Operation) : (a.united b).arity = a.arity := rfl

/-- What can stand for each other does not depend on the responses' texts. -/
theorem agrees_muted_iff (a b : Operation) : a.muted.Agrees b.muted ↔ a.Agrees b := Iff.rfl

/-- Parameters are kept from the left alone, so the right ones are found again by
going back and forth over what agrees. -/
theorem united_agrees_iff {a b c : Operation} (hb : b.Proper) (hca : c.arity = a.arity)
    (hab : a.Agrees b) : (a.united b).Agrees c ↔ a.Agrees c ∧ b.Agrees c := by
  have hbodies := BodiesAgree.united_iff (c := c.requestBody) hb.content hab.2
  constructor
  · rintro ⟨hp, hbody⟩
    obtain ⟨hac, hbc⟩ := hbodies.1 hbody
    exact ⟨⟨hp, hac⟩, hab.1.symm.trans hca.le hp, hbc⟩
  · rintro ⟨hac, hbc⟩
    exact ⟨hac.1, hbodies.2 ⟨hac.2, hbc.2⟩⟩

/-- Operations with one number of captures have it together. -/
theorem arity_unitedAll {ops : List Operation} {n : Nat} (hne : ops ≠ [])
    (h : ∀ op ∈ ops, op.arity = n) : (unitedAll ops).arity = n := by
  induction ops using List.reverseRecOn with
  | nil => exact absurd rfl hne
  | append_singleton ops x ih =>
      by_cases hops : ops = []
      · subst hops
        exact h x (by simp)
      · rw [unitedAll_append_singleton hops, arity_united]
        exact ih hops fun op hop => h op (List.mem_append_left _ hop)

/-- What several operations make together agrees with one more exactly when each
of them does. -/
theorem unitedAll_agrees_iff {ops : List Operation} {c : Operation} (hne : ops ≠ [])
    (hp : ∀ op ∈ ops, op.Proper) (harity : ∀ op ∈ ops, op.arity = c.arity)
    (hops : ops.Pairwise Agrees) :
    (unitedAll ops).Agrees c ↔ ∀ op ∈ ops, op.Agrees c := by
  induction ops using List.reverseRecOn generalizing c with
  | nil => exact absurd rfl hne
  | append_singleton ops x ih =>
      rw [List.pairwise_append] at hops
      by_cases hnil : ops = []
      · subst hnil
        simp [unitedAll]
      · have hp' : ∀ op ∈ ops, op.Proper := fun op hop => hp op (List.mem_append_left _ hop)
        have harity' : ∀ op ∈ ops, op.arity = c.arity :=
          fun op hop => harity op (List.mem_append_left _ hop)
        have hx : x.arity = c.arity := harity x (by simp)
        have hagree : (unitedAll ops).Agrees x :=
          (ih hnil hp' (fun op hop => (harity' op hop).trans hx.symm) hops.1).2
            fun op hop => hops.2.2 op hop x (by simp)
        rw [unitedAll_append_singleton hnil,
          united_agrees_iff (hp x (by simp)) (arity_unitedAll hnil harity').symm hagree,
          ih hnil hp' harity' hops.1]
        simp only [List.mem_append, List.mem_singleton, or_imp, forall_and, forall_eq]

end Operation

/-- Operations merge when their parameters match and their bodies agree, and then into what they
make together. -/
theorem mergeOperations_eq_ok_iff_matches {a b m : Operation} {identity : String}
    (hproper : b.Proper) :
    mergeOperations identity a b = .ok m ↔ a.Matches b ∧ m = a.united b := by
  rw [Operation.Matches, ← parametersDisagree?_eq_none_iff_match]
  cases hd : parametersDisagree? a.parameters b.parameters with
  | some cause => simp [mergeOperations, hd]
  | none =>
      cases hbody : mergeBodies a.requestBody b.requestBody with
      | error cause =>
          simp only [mergeOperations, hd, hbody, reduceCtorEq, true_and, false_iff, not_and]
          intro h
          rw [(mergeBodies_eq_ok_iff hproper.content).2 ⟨h, rfl⟩] at hbody
          simp at hbody
      | ok body =>
          obtain ⟨hagree, rfl⟩ := (mergeBodies_eq_ok_iff hproper.content).1 hbody
          simp only [mergeOperations, hd, hbody, Except.ok.injEq, true_and]
          exact ⟨fun h => ⟨hagree, h.symm⟩, fun h => h.2.symm⟩

/-- Operations merge exactly if they can stand for each other, and then to both together. -/
theorem mergeOperations_eq_ok_iff {names : List String} {a b m : Operation} {identity : String}
    (ha : SpelledBy names a.parameters) (hb : SpelledBy names b.parameters) (hproper : b.Proper) :
    mergeOperations identity a b = .ok m ↔ a.Agrees b ∧ m = a.united b := by
  rw [Operation.Agrees, ← parametersDisagree?_eq_none_iff_agree ha hb,
    parametersDisagree?_eq_none_iff_match, mergeOperations_eq_ok_iff_matches hproper,
    Operation.Matches]

end ApiTree
