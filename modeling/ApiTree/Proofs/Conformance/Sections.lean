import ApiTree.Proofs.Conformance.Confinement
import ApiTree.Proofs.Ty.Distinct
import Mathlib.Order.Bounds.Defs

/-!
# ApiTree.Proofs.Conformance.Sections

What the sections of a report say.  Samples are drawn one after the other from one source, which
goes from section to section: each begins where the one before has left it.  A section says of
its samples what they show (`Trial.Shows`): the number of the first that fails, with what is
wrong with it, or that none of them does.

* `Trial.Ends.shows` — an outcome shows what the samples show;
* `conformance_sections` — the sections of a report are for the types of the bodies, in order and
  without repetition, and each shows what its samples show.
-/

namespace ApiTree

variable {σ : Type}

/-! ## what samples show -/

/-- Leaving out the first of some samples, one is shown that is among them. -/
theorem foldl_shownOf_mem (first : Json) (js : List Json) :
    js.foldl shownOf first ∈ first :: js := by
  induction js generalizing first with
  | nil => exact List.mem_singleton.2 rfl
  | cons j js ih =>
      have hfirst : shownOf first j = first ∨ shownOf first j = j := by
        cases first <;> simp [shownOf]
      rcases List.mem_cons.1 (ih (shownOf first j)) with h | h
      · rw [List.foldl_cons, h]
        rcases hfirst with h | h <;> simp [h]
      · exact List.mem_cons_of_mem _ (List.mem_cons_of_mem _ h)

namespace Trial

variable {c : Catalog} {x : Trial σ} {s s' : σ} {samples : Nat}

/-- A value is the `k`th, counted from one, of those that are drawn from a state of the source. -/
def Draws (x : Trial σ) (s : σ) (k : Nat) (v : Value) : Prop :=
  ∃ vs t, (Draw.times x.generate k).run s = .ok (vs, t) ∧ vs.getLast? = some v

/-- A value fails if it cannot be encoded or violates the schema; then the given sample is shown
and the given violation reported. -/
inductive Fails (c : Catalog) (x : Trial σ) (v : Value) : Json → Violation → Prop
  | unencodable {f : Fault} (encode : x.encode v = .error f) :
    Fails c x v (.str (v.shown c)) (.here (.encoding f))
  | violates {j : Json} {violation : Violation} (encode : x.encode v = .ok j)
    (check : x.check j = .ok (some violation)) : Fails c x v j violation

/-- A value that is encoded as `j` and satisfies the schema. -/
structure Good (x : Trial σ) (v : Value) (j : Json) : Prop where
  encode : x.encode v = .ok j
  check : x.check j = .ok none

/-- A sample that is good does not fail. -/
theorem Good.not_fails {v : Value} {j j' : Json} {violation : Violation} (h : x.Good v j) :
    ¬ x.Fails c v j' violation := by
  rintro (hencode | ⟨hencode, hcheck⟩)
  · rw [h.encode] at hencode
    cases hencode
  · rw [h.encode] at hencode
    obtain rfl := Except.ok.inj hencode
    rw [h.check] at hcheck
    cases hcheck

/-- An outcome shows what up to a number of samples show that are drawn from the state `s`; the
source is left in the state `s'`. -/
structure Shows (c : Catalog) (x : Trial σ) (samples : Nat) (s : σ) (o : Outcome) (s' : σ) :
    Prop where
  /-- As many samples are drawn as are said to be checked. -/
  drawn : ∃ vs, (Draw.times x.generate o.checked).run s = .ok (vs, s')
  /-- What is reported as violated is violated by the first sample that fails. -/
  failed : ∀ violation, o.violation = some violation →
    IsLeast {k | k ≤ samples ∧ ∃ v j w, x.Draws s k v ∧ x.Fails c v j w} o.checked ∧
      ∃ v, x.Draws s o.checked v ∧ x.Fails c v o.sample violation
  /-- If nothing is reported all samples are checked, all are good, and one of them is shown. -/
  passed : o.violation = none → o.checked = samples ∧
    (∀ k ≤ samples, ∀ v, x.Draws s k v → ∃ j, x.Good v j) ∧
      ∃ k ≤ samples, ∃ v, x.Draws s k v ∧ x.Good v o.sample

/-- Samples that pass are drawn one after the other, and are good. -/
theorem Passes.exists_times {js : List Json} (h : x.Passes s js s') :
    ∃ vs, (Draw.times x.generate js.length).run s = .ok (vs, s') ∧ List.Forall₂ x.Good vs js := by
  induction h with
  | none s => exact ⟨[], rfl, .nil⟩
  | @more s s₁ s₂ v j js draw encode check rest ih =>
      obtain ⟨vs, hvs, hgood⟩ := ih
      exact ⟨v :: vs, Draw.run_times_succ_ok.2 ⟨v, s₁, vs, draw, hvs, rfl⟩,
        .cons ⟨encode, check⟩ hgood⟩

/-- The values that are drawn are those of the list of them all. -/
theorem draws_iff {n k : Nat} {vs : List Value} {v : Value}
    (h : (Draw.times x.generate n).run s = .ok (vs, s')) (hk : k ≤ n) :
    x.Draws s k v ↔ (vs.take k).getLast? = some v := by
  obtain ⟨t, ht⟩ := Draw.run_times_take h hk
  constructor
  · rintro ⟨us, u, hu, hv⟩
    rw [ht] at hu
    obtain ⟨rfl, -⟩ := Prod.mk.inj (Except.ok.inj hu)
    exact hv
  · exact fun hv => ⟨_, t, ht, hv⟩

/-- Where samples pass, every one of them is good. -/
theorem Passes.good_of_draws {js : List Json} (h : x.Passes s js s') {k : Nat} {v : Value}
    (hk : k ≤ js.length) (hv : x.Draws s k v) : ∃ j, x.Good v j := by
  obtain ⟨vs, hvs, hgood⟩ := h.exists_times
  have hmem := List.mem_of_mem_take (List.mem_of_getLast? ((draws_iff hvs hk).1 hv))
  obtain ⟨j, -, hj⟩ := exists_of_forall₂ hgood hmem
  exact ⟨j, hj⟩

/-- A value that is drawn is drawn one later from one draw before. -/
theorem Draws.succ {s₁ : σ} {v₀ v : Value} {k : Nat} (draw : x.generate.run s = .ok (v₀, s₁))
    (h : x.Draws s₁ k v) : x.Draws s (k + 1) v := by
  obtain ⟨vs, t, hvs, hv⟩ := h
  exact ⟨v₀ :: vs, t, Draw.run_times_succ_ok.2 ⟨v₀, s₁, vs, draw, hvs, rfl⟩, by
    rw [List.getLast?_cons, hv, Option.getD_some]⟩

/-- Where samples pass, every encoded one was drawn. -/
theorem Passes.exists_draws {js : List Json} (h : x.Passes s js s') {j : Json} (hj : j ∈ js) :
    ∃ k ≤ js.length, ∃ v, x.Draws s k v ∧ x.Good v j := by
  induction h with
  | none s => cases hj
  | @more s s₁ s₂ v j' js draw encode check rest ih =>
      rcases List.mem_cons.1 hj with rfl | hj
      · have hone := Draw.run_times_succ_ok.2
          ⟨v, s₁, [], draw, Draw.run_times_zero_ok.2 ⟨rfl, rfl⟩, rfl⟩
        exact ⟨1, by simp, v, ⟨[v], s₁, hone, rfl⟩, encode, check⟩
      · obtain ⟨k, hk, u, hu, hgood⟩ := ih hj
        exact ⟨k + 1, Nat.succ_le_succ hk, u, hu.succ draw, hgood⟩

/-- The sample after some that pass is the first that fails, if it does. -/
theorem shows_of_fails {js : List Json} {s₁ : σ} {v : Value} {j : Json} {violation : Violation}
    (h : x.Passes s js s₁) (hlen : js.length < samples) (draw : x.generate.run s₁ = .ok (v, s'))
    (hfails : x.Fails c v j violation) :
    x.Shows c samples s ⟨js.length + 1, j, some violation⟩ s' := by
  obtain ⟨vs, hvs, -⟩ := h.exists_times
  have hall := Draw.run_times_append_singleton hvs draw
  have hdraws : x.Draws s (js.length + 1) v := ⟨_, s', hall, List.getLast?_concat⟩
  refine ⟨⟨_, hall⟩, fun w hw => ?_, fun hnone => by cases hnone⟩
  obtain rfl := Option.some.inj hw
  refine ⟨⟨⟨hlen, v, j, violation, hdraws, hfails⟩, ?_⟩, v, hdraws, hfails⟩
  rintro k ⟨-, u, i, w, hu, hw⟩
  -- a sample before it is one of those that pass
  by_contra hk
  have hk : k ≤ js.length := Nat.lt_succ_iff.1 (Nat.lt_of_not_le hk)
  obtain ⟨i', hgood⟩ := h.good_of_draws hk hu
  exact hgood.not_fails hw

/-- Samples that pass are shown. -/
theorem shows_of_passes {js : List Json} (h : x.Passes s js s') (hpos : 1 ≤ js.length) :
    x.Shows c js.length s ⟨js.length, js.foldl shownOf .null, none⟩ s' := by
  obtain ⟨vs, hvs, -⟩ := h.exists_times
  have hshown : js.foldl shownOf .null ∈ js := by
    obtain ⟨j, js, rfl⟩ := List.exists_cons_of_length_pos hpos
    exact foldl_shownOf_mem j js
  exact ⟨⟨vs, hvs⟩, (by rintro w ⟨⟩), fun _ => ⟨rfl, fun k hk v => h.good_of_draws hk,
    h.exists_draws hshown⟩⟩

/-- The outcome that samples come to shows what they show. -/
theorem Ends.shows {o : Outcome} (h : x.Ends c samples s o s') (hpos : 1 ≤ samples) :
    x.Shows c samples s o s' := by
  cases h with
  | passed h hlen =>
      subst hlen
      exact shows_of_passes h hpos
  | unencodable h hlen draw encode => exact shows_of_fails h hlen draw (.unencodable encode)
  | violates h hlen draw encode check => exact shows_of_fails h hlen draw (.violates encode check)

end Trial

/-! ## the types of a tree -/

/-- The types of answers are those of the endpoint and its responses that are something. -/
theorem Endpoint.mem_answerTypes (e : Endpoint) (ty : Ty) :
    ty ∈ e.answerTypes ↔ ty ∈ e.returns :: e.responses.map (·.returns) ∧ ty ≠ .nothing := by
  rw [answerTypes, List.mem_filter]
  refine and_congr_right fun _ => ?_
  cases ty <;> simp

/-- A qualifier has the type of a body exactly if it is one. -/
theorem Qualifier.bodyType?_eq_some {q : Qualifier} {ty : Ty} :
    q.bodyType? = some ty ↔ ∃ contentTypes d, q = .body ty contentTypes d := by
  cases q <;> simp [bodyType?]

/-- The types of bodies are those of the qualifiers and those of the answers. -/
theorem Route.mem_bodyTypes (r : Route) (ty : Ty) :
    ty ∈ r.bodyTypes ↔ (∃ contentTypes d, .body ty contentTypes d ∈ r.qualifiers) ∨
      ty ∈ r.endpoint.returns :: r.endpoint.responses.map (·.returns) ∧ ty ≠ .nothing := by
  rw [bodyTypes, List.mem_append, r.endpoint.mem_answerTypes, List.mem_filterMap]
  refine or_congr_left ?_
  simp only [Qualifier.bodyType?_eq_some]
  constructor
  · rintro ⟨_, hq, contentTypes, d, rfl⟩
    exact ⟨contentTypes, d, hq⟩
  · rintro ⟨contentTypes, d, hq⟩
    exact ⟨_, hq, contentTypes, d, rfl⟩

/-- Of types with one identity the first is kept, and no other. -/
theorem Tree.nodup_bodyTypes {c : Catalog} {t : Tree} {types : List Ty}
    (h : t.bodyTypes c = .ok types) : (types.map c.identity).Nodup := by
  obtain ⟨rs, -, h⟩ := bind_eq_ok_iff.1 h
  obtain rfl := pure_eq_ok_iff.1 h
  rw [List.Nodup, List.pairwise_map]
  refine (Ty.pairwise_distinct _ _).imp fun hne heq => ?_
  rw [heq, beq_self_eq_true] at hne
  cases hne

/-- The types that are checked are those of bodies, by identity. -/
theorem Tree.mem_identities_bodyTypes {c : Catalog} {t : Tree} {types : List Ty}
    (h : t.bodyTypes c = .ok types) :
    ∃ rs, t.flatten = .ok rs ∧
      ∀ id, id ∈ types.map c.identity ↔ ∃ r ∈ rs, ∃ ty ∈ r.bodyTypes, c.identity ty = id := by
  obtain ⟨rs, hrs, h⟩ := bind_eq_ok_iff.1 h
  obtain rfl := pure_eq_ok_iff.1 h
  refine ⟨rs, hrs, fun id => ?_⟩
  rw [List.mem_map]
  constructor
  · rintro ⟨ty, hty, rfl⟩
    obtain ⟨r, hr, hty⟩ := List.mem_flatMap.1 (Ty.mem_of_mem_distinct hty)
    exact ⟨r, hr, ty, hty, rfl⟩
  · rintro ⟨r, hr, ty, hty, rfl⟩
    obtain ⟨y, hy, hsame⟩ := Ty.exists_mem_distinct
      (f := fun a b => c.identity a == c.identity b) (List.mem_flatMap.2 ⟨r, hr, hty⟩)
    rcases hsame with rfl | hsame
    · exact ⟨ty, hy, rfl⟩
    · exact ⟨y, hy, (eq_of_beq hsame).symm⟩

/-! ## reports -/

/-- Where sections come to an end schemas have been given for all types. -/
theorem Catalog.exists_replay_of_checkPlans [RandomSource σ] {c : Catalog} {samples : Nat}
    {ps : List (Plan σ)} {r : Registry} {s s' : σ} {sections : List Section}
    (h : (c.checkPlans samples ps r).run s = .ok (sections, s')) :
    ∃ steps last, (Registry.replay c (ps.map (·.ty))).run.run r = (.ok steps, last) := by
  induction ps generalizing r s s' sections with
  | nil => exact ⟨[], r, rfl⟩
  | cons p ps ih =>
      rw [checkPlans] at h
      cases hschema : (Registry.schemaOf c p.ty).run.run r with
      | mk given r₁ =>
          rw [hschema] at h
          -- without a schema there would be no sections
          cases given with
          | error f => cases h
          | ok schema =>
              obtain ⟨_, _, -, h⟩ := Draw.run_bind_ok.1 h
              obtain ⟨_, _, -, h⟩ := Draw.run_bind_ok.1 h
              obtain ⟨_, _, hrest, -⟩ := Draw.run_bind_ok.1 h
              obtain ⟨steps, last, hsteps⟩ := ih hrest
              exact ⟨_, last, Registry.run_replay_cons hschema hsteps⟩

/-- The types of the bodies of a tree, each with what its samples are drawn, encoded and checked
with. -/
structure Catalog.Tries [RandomSource σ] (c : Catalog) (t : Tree) (own : Collaborators σ)
    (types : List Ty) (trials : List (Trial σ)) : Prop where
  bodyTypes : t.bodyTypes c = .ok types
  exists_plans : ∃ plans steps last, types.mapM (c.plan own) = .ok plans ∧
    (Registry.replay c types).run.run {} = (.ok steps, last) ∧
    trials = (plans.zip steps).map fun e => e.1.trial e.2

/-- There is a trial for each type. -/
theorem Catalog.Tries.map_ty [RandomSource σ] {c : Catalog} {t : Tree} {own : Collaborators σ}
    {types : List Ty} {trials : List (Trial σ)} (h : c.Tries t own types trials) :
    trials.map (·.ty) = types := by
  obtain ⟨plans, steps, last, hplans, hsteps, rfl⟩ := h.exists_plans
  have hty := Catalog.map_ty_of_plans hplans
  have hlen : plans.length ≤ steps.length := by
    rw [Registry.length_replay hsteps, ← hty, List.length_map]
  rw [List.map_map, ← hty]
  exact (List.map_map (l := plans.zip steps) (f := Prod.fst) (g := (·.ty))).symm.trans
    (congrArg (List.map (·.ty)) (List.map_fst_zip hlen))

/-- A report has the sections that trials of the types of the bodies come to. -/
theorem Catalog.exists_reports [RandomSource σ] {c : Catalog} {t : Tree} {samples : Int}
    {own : Collaborators σ} {s s' : σ} {report : Report}
    (h : (c.conformance t samples own).run s = .ok (report, s')) :
    1 ≤ samples ∧ ∃ types trials, c.Tries t own types trials ∧
      Reports c samples.toNat trials s report.sections s' := by
  rw [Catalog.conformance] at h
  by_cases hfew : samples < 1
  · rw [if_pos hfew] at h
    cases h
  · rw [if_neg hfew] at h
    cases hplans : c.plans own t with
    | error f =>
        rw [hplans] at h
        cases h
    | ok plans =>
        rw [hplans] at h
        change (do return ⟨← c.checkPlans samples.toNat plans {}⟩ : Draw σ Report).run s = _ at h
        obtain ⟨sections, u, hsections, h⟩ := Draw.run_bind_ok.1 h
        obtain ⟨rfl, rfl⟩ := Draw.run_pure_ok.1 h
        obtain ⟨types, htypes, hplans⟩ := bind_eq_ok_iff.1 hplans
        obtain ⟨steps, last, hsteps⟩ := exists_replay_of_checkPlans hsections
        rw [c.checkPlans_eq_sections samples.toNat hsteps, run_sections_ok_iff] at hsections
        rw [map_ty_of_plans hplans] at hsteps
        exact ⟨by omega, types, _, ⟨htypes, plans, steps, last, hplans, hsteps, rfl⟩, hsections⟩

/-- Each section begins where the one before has left the source. -/
theorem Reports.exists_sources {c : Catalog} {samples : Nat} {xs : List (Trial σ)} {s s' : σ}
    {sections : List Section} (h : Reports c samples xs s sections s') :
    ∃ sources : List σ, sources.head? = some s ∧ sources.getLast? = some s' ∧
      sources.length = xs.length + 1 ∧ ∀ i x, xs[i]? = some x → ∃ u u' o,
        sources[i]? = some u ∧ sources[i + 1]? = some u' ∧
        sections[i]? = some ⟨c.label x.ty, c.identity x.ty, o⟩ ∧ x.Ends c samples u o u' := by
  induction h with
  | nil s => exact ⟨[s], rfl, rfl, rfl, fun i x hx => by simp at hx⟩
  | @cons x xs s s₁ s₂ o sections ends rest ih =>
      obtain ⟨sources, hhead, hlast, hlen, hsections⟩ := ih
      refine ⟨s :: sources, rfl, ?_, by rw [List.length_cons, hlen]; rfl, fun i y hy => ?_⟩
      · rw [List.getLast?_cons, hlast, Option.getD_some]
      · cases i with
        | zero =>
            obtain rfl := Option.some.inj hy
            exact ⟨s, s₁, o, rfl, by rw [← hhead, List.head?_eq_getElem?]; rfl, rfl, ends⟩
        | succ i => exact hsections i y hy

/-- The sections of a report are for the types of the bodies of the routes, in order and each
identity once: those of requests, and those of answers that answer with something.  Each shows
what is shown by its samples, up to the given number, that are drawn from where the section
before has left the source. -/
theorem conformance_sections [RandomSource σ] (c : Catalog) (t : Tree) (samples : Int)
    (own : Collaborators σ) (s s' : σ) (report : Report)
    (h : (c.conformance t samples own).run s = .ok (report, s')) :
    ∃ rs types trials, ∃ sources : List σ, t.flatten = .ok rs ∧ c.Tries t own types trials ∧
      report.sections.map (fun e => (e.label, e.identity)) =
        types.map (fun ty => (c.label ty, c.identity ty)) ∧
      (types.map c.identity).Nodup ∧
      (∀ id, id ∈ types.map c.identity ↔ ∃ r ∈ rs, ∃ ty, c.identity ty = id ∧
        ((∃ contentTypes d, .body ty contentTypes d ∈ r.qualifiers) ∨
          ty ∈ r.endpoint.returns :: r.endpoint.responses.map (·.returns) ∧ ty ≠ .nothing)) ∧
      sources.head? = some s ∧ sources.getLast? = some s' ∧
      sources.length = types.length + 1 ∧
      ∀ i ty, types[i]? = some ty → ∃ x u u' o, trials[i]? = some x ∧ x.ty = ty ∧
        sources[i]? = some u ∧ sources[i + 1]? = some u' ∧
        report.sections[i]? = some ⟨c.label ty, c.identity ty, o⟩ ∧
        x.Shows c samples.toNat u o u' := by
  obtain ⟨hpos, types, trials, htries, hreports⟩ := Catalog.exists_reports h
  obtain ⟨rs, hrs, hidentities⟩ := Tree.mem_identities_bodyTypes htries.bodyTypes
  obtain ⟨sources, hhead, hlast, hlen, hsections⟩ := hreports.exists_sources
  have hty := htries.map_ty
  have hlength : trials.length = types.length := by rw [← hty, List.length_map]
  refine ⟨rs, types, trials, sources, hrs, htries, ?_, Tree.nodup_bodyTypes htries.bodyTypes,
    fun id => ?_, hhead, hlast, hlength ▸ hlen, fun i ty hi => ?_⟩
  · rw [hreports.types_eq, ← hty, List.map_map]
    rfl
  · simp only [hidentities, Route.mem_bodyTypes, and_comm]
  · rw [← hty, List.getElem?_map] at hi
    obtain ⟨x, hx, rfl⟩ := Option.map_eq_some_iff.1 hi
    obtain ⟨u, u', o, hu, hu', ho, hends⟩ := hsections i x hx
    exact ⟨x, u, u', o, hx, rfl, hu, hu', ho, hends.shows (by omega)⟩

/-- Where texts cannot be encoded, the first text is shown; the two truth values that follow are
drawn from where it has left the source. -/
theorem textAndFlag_sections :
    ∃ report s', ∃ x : Trial Congruential, ∃ o : Outcome,
      (Catalog.conformance [] textAndFlag 2 brokenEncoder).run (.ofSeed 0) = .ok (report, s') ∧
      report.sections.map (·.outcome.checked) = [1, 2] ∧
      report.sections[0]? = some ⟨"str", "str", o⟩ ∧
      IsLeast {k | k ≤ 2 ∧ ∃ v j w, x.Draws (.ofSeed 0) k v ∧ x.Fails [] v j w} o.checked := by
  have hok : ((Catalog.conformance [] textAndFlag 2 brokenEncoder).run (.ofSeed 0)).toOption.any
      (fun r => r.1.sections.map (·.outcome.checked) = [1, 2] ∧
        r.1.sections.map (·.passed) = [false, true]) = true := by decide +kernel
  obtain ⟨⟨report, s'⟩, hrun, hcounts⟩ := (Option.any_eq_true _ _).1 hok
  obtain ⟨hchecked, hpassed⟩ := of_decide_eq_true hcounts
  have hrun := toOption_eq_some_iff.1 hrun
  obtain ⟨rs, types, trials, sources, -, htries, -, -, -, hhead, -, -, hsections⟩ :=
    conformance_sections [] textAndFlag 2 brokenEncoder _ s' report hrun
  obtain rfl : [.scalar .str, .scalar .bool] = types := Except.ok.inj htries.bodyTypes
  obtain ⟨x, u, u', o, -, -, hu, -, ho, hshows⟩ := hsections 0 (.scalar .str) rfl
  rw [List.head?_eq_getElem?, hu] at hhead
  obtain rfl := Option.some.inj hhead
  have hfailed : o.violation.isNone = false := by
    have hfirst := congrArg List.head? hpassed
    rw [List.head?_map, List.head?_eq_getElem?, ho] at hfirst
    exact Option.some.inj hfirst
  obtain ⟨violation, hviolation⟩ :=
    Option.isSome_iff_exists.1 (Option.isNone_eq_false_iff.1 hfailed)
  exact ⟨report, s', x, o, hrun, hchecked, ho, (hshows.failed violation hviolation).1⟩

/-- A route whose body is said to be nothing. -/
def bodyOfNothing : Tree := .seq (.body .nothing [jsonContent] none) (.leaf { method := .get })

/-- A generator of nothing. -/
def nullGenerator : Collaborators Congruential :=
  { generators := [(Catalog.identity [] .nothing, pure .null)] }

/-- A body of nothing has a section too: bodies of requests are not passed over. -/
theorem bodyOfNothing_section :
    ∃ report s', (Catalog.conformance [] bodyOfNothing 1 nullGenerator).run (.ofSeed 0) =
        .ok (report, s') ∧
      ∀ rs, bodyOfNothing.flatten = .ok rs →
        ¬ ∀ id, id ∈ report.sections.map (·.identity) ↔
          ∃ r ∈ rs, ∃ ty ∈ r.bodyTypes, ty ≠ .nothing ∧ Catalog.identity [] ty = id := by
  have hok : ((Catalog.conformance [] bodyOfNothing 1 nullGenerator).run (.ofSeed 0)).toOption.any
      (fun r => r.1.sections.map (·.identity) = ["None"]) = true := by decide +kernel
  obtain ⟨⟨report, s'⟩, hrun, hsections⟩ := (Option.any_eq_true _ _).1 hok
  refine ⟨report, s', toOption_eq_some_iff.1 hrun, fun rs hrs hiff => ?_⟩
  obtain rfl := Except.ok.inj hrs
  have hmem : "None" ∈ report.sections.map (·.identity) := by simp [of_decide_eq_true hsections]
  obtain ⟨r, hr, ty, hty, hne, -⟩ := (hiff "None").1 hmem
  obtain rfl := List.mem_singleton.1 hr
  exact hne (List.mem_singleton.1 hty)

end ApiTree
