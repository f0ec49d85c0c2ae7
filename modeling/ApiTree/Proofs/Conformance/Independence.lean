import ApiTree.Proofs.Conformance.Sections

/-!
# ApiTree.Proofs.Conformance.Independence

What the section of a type depends on.  Of what a caller brings only that counts which is for the
type or for a type that stands in it (`Catalog.plan_congr`).  But all types draw from one source,
and a type that fails draws less from it: what a caller brings for an earlier type decides from
which state of the source the samples of a later one are drawn.

* `Catalog.Threads` — the states of the source at which the sections of a report begin;
* `conformance_sections_agree` — sections are equal where the caller brings the same for their
  types and the sections before them have left the source in the same state; so what is brought
  for later types never counts.
-/

namespace ApiTree

/-- A type stands in another: it is the other, or stands in a part of it. -/
inductive Ty.StandsIn (u : Ty) : Ty → Prop
  | self : StandsIn u u
  | each {k : Collector} {t : Ty} (h : StandsIn u t) : StandsIn u (.each k t)
  | tuple {t : Ty} {ts : List Ty} (ht : t ∈ ts) (h : StandsIn u t) : StandsIn u (.tuple ts)
  | key {k : Keyed} {t v : Ty} (h : StandsIn u t) : StandsIn u (.keyed k t v)
  | value {k : Keyed} {t v : Ty} (h : StandsIn u v) : StandsIn u (.keyed k t v)
  | union {style : UnionStyle} {t : Ty} {ts : List Ty} (ht : t ∈ ts) (h : StandsIn u t) :
    StandsIn u (.union style ts)
  | annotated {t : Ty} {ns : List Note} (h : StandsIn u t) : StandsIn u (.annotated t ns)

variable {σ : Type}

/-- Two callers bring the same for a type. -/
structure Collaborators.SameFor (c : Catalog) (own own' : Collaborators σ) (t : Ty) : Prop where
  generators : own.generators.find? (c.identity t) = own'.generators.find? (c.identity t)
  encoders : own.encoders.find? (c.identity t) = own'.encoders.find? (c.identity t)
  rules : own.rules.find? (c.identity t) = own'.rules.find? (c.identity t)

/-- Two callers bring the same for a type and for all types that stand in it. -/
def Collaborators.SameWithin (c : Catalog) (own own' : Collaborators σ) (t : Ty) : Prop :=
  ∀ u : Ty, u.StandsIn t → own.SameFor c own' u

namespace Catalog

variable [RandomSource σ] {c : Catalog}

mutual

/-- The generator of a type depends on the generators of the types that stand in it. -/
theorem generatorWithin_congr {own own' : Generators σ} (t : Ty) (whole : Option Ty)
    (h : ∀ u : Ty, u.StandsIn t →
      Table.find? own (c.identity u) = Table.find? own' (c.identity u)) :
    c.generatorWithin own whole t = c.generatorWithin own' whole t := by
  rw [generatorWithin, generatorWithin, h t .self]
  cases t with
  | nothing | scalar | bare | cls | literal => rfl
  | each k t =>
      simp only [generatorWithin_congr t _ fun u hu => h u (.each hu)]
  | tuple ts =>
      simp only [generatorsWithin_congr ts _ fun t ht u hu => h u (.tuple ht hu)]
  | keyed k t v =>
      simp only [generatorWithin_congr t _ fun u hu => h u (.key hu),
        generatorWithin_congr v _ fun u hu => h u (.value hu)]
  | union style ts =>
      simp only [generatorsWithin_congr ts _ fun t ht u hu => h u (.union ht hu)]
  | annotated t ns =>
      have hbase := generatorWithin_congr t (whole.or (some (.annotated t ns)))
        fun u hu => h u (.annotated hu)
      dsimp only
      split
      · rfl
      · split
        · rfl
        · exact hbase

theorem generatorsWithin_congr {own own' : Generators σ} (ts : List Ty) (whole : Option Ty)
    (h : ∀ t ∈ ts, ∀ u : Ty, u.StandsIn t →
      Table.find? own (c.identity u) = Table.find? own' (c.identity u)) :
    c.generatorsWithin own whole ts = c.generatorsWithin own' whole ts := by
  cases ts with
  | nil => rfl
  | cons t ts =>
      rw [generatorsWithin, generatorsWithin,
        generatorWithin_congr t whole (h t List.mem_cons_self),
        generatorsWithin_congr ts whole fun t' ht' => h t' (List.mem_cons_of_mem _ ht')]

end

/-- What checking a type needs depends on what is brought for it and the types in it. -/
theorem plan_congr {own own' : Collaborators σ} {t : Ty} (h : own.SameWithin c own' t) :
    c.plan own t = c.plan own' t := by
  have hgenerator : c.generator own.generators t = c.generator own'.generators t :=
    generatorWithin_congr t none fun u hu => (h u hu).generators
  have hencoder : c.encoder own.encoders t = c.encoder own'.encoders t := by
    rw [encoder, encoder, (h t .self).encoders]
  rw [plan, plan, hgenerator, hencoder, (h t .self).rules]

end Catalog

/-! ## trials of two callers -/

theorem exists_getElem?_of_mapM {α β ε : Type} {f : α → Except ε β} {xs : List α} {ys : List β}
    (h : xs.mapM f = .ok ys) {i : Nat} {x : α} (hi : xs[i]? = some x) :
    ∃ y, ys[i]? = some y ∧ f x = .ok y := by
  induction xs generalizing ys i with
  | nil => simp at hi
  | cons x' xs ih =>
      rw [List.mapM_cons] at h
      obtain ⟨y, hy, h⟩ := bind_eq_ok_iff.1 h
      obtain ⟨ys, hys, h⟩ := bind_eq_ok_iff.1 h
      obtain rfl := pure_eq_ok_iff.1 h
      cases i with
      | zero =>
          obtain rfl := Option.some.inj hi
          exact ⟨y, rfl, hy⟩
      | succ i => exact ih hys hi

/-- An outcome is decided by the trial and the state of the source. -/
theorem Trial.Ends.unique {c : Catalog} {x : Trial σ} {samples : Nat} {s u u' : σ}
    {o o' : Outcome} (h : x.Ends c samples s o u) (h' : x.Ends c samples s o' u') :
    o = o' ∧ u = u' := by
  have hrun := Trial.run_probed_of_ends h
  rw [Trial.run_probed_of_ends h'] at hrun
  obtain ⟨rfl, rfl⟩ := Prod.mk.inj (Except.ok.inj hrun)
  exact ⟨rfl, rfl⟩

namespace Catalog

variable [RandomSource σ] {c : Catalog} {t : Tree} {own own' : Collaborators σ}
  {types types' : List Ty} {trials trials' : List (Trial σ)}

theorem generator_of_plan {ty : Ty} {p : Plan σ} (h : c.plan own ty = .ok p) :
    c.generator own.generators ty = .ok p.generate := by
  obtain ⟨generate, hgenerate, h⟩ := bind_eq_ok_iff.1 h
  obtain ⟨encode, -, h⟩ := bind_eq_ok_iff.1 h
  obtain rfl := pure_eq_ok_iff.1 h
  exact hgenerate

/-- The trial of a type is made of its plan and of what the registry gives for it. -/
theorem getElem?_trials {plans : List (Plan σ)} {steps : List (Schema × Registry)}
    (hplans : types.mapM (c.plan own) = .ok plans) (hlen : steps.length = types.length) {i : Nat}
    {ty : Ty} (hi : types[i]? = some ty) :
    ∃ p step, c.plan own ty = .ok p ∧ steps[i]? = some step ∧
      ((plans.zip steps).map fun e => e.1.trial e.2)[i]? = some (p.trial step) := by
  obtain ⟨p, hp, hplan⟩ := exists_getElem?_of_mapM hplans hi
  obtain ⟨hlt, -⟩ := List.getElem?_eq_some_iff.1 hi
  have hstep := List.getElem?_eq_getElem (l := steps) (hlen ▸ hlt)
  refine ⟨p, _, hplan, hstep, ?_⟩
  rw [List.getElem?_map, (List.getElem?_zip_eq_some (z := (p, _))).2 ⟨hp, hstep⟩]
  rfl

theorem Tries.types_eq (h : c.Tries t own types trials) (h' : c.Tries t own' types' trials') :
    types = types' := Except.ok.inj (h.bodyTypes.symm.trans h'.bodyTypes)

/-- Callers that bring the same for a type and the types in it make the same trial of it. -/
theorem Tries.getElem?_eq (h : c.Tries t own types trials) (h' : c.Tries t own' types trials')
    {i : Nat} {ty : Ty} (hi : types[i]? = some ty) (hsame : own.SameWithin c own' ty) :
    trials[i]? = trials'[i]? := by
  obtain ⟨plans, steps, last, hplans, hsteps, rfl⟩ := h.exists_plans
  obtain ⟨plans', steps', last', hplans', hsteps', rfl⟩ := h'.exists_plans
  rw [hsteps] at hsteps'
  obtain rfl := Except.ok.inj (congrArg Prod.fst hsteps')
  have hlen := Registry.length_replay hsteps
  obtain ⟨p, step, hp, hstep, htrial⟩ := getElem?_trials hplans hlen hi
  obtain ⟨p', step', hp', hstep', htrial'⟩ := getElem?_trials hplans' hlen hi
  rw [plan_congr hsame, hp'] at hp
  obtain rfl := Except.ok.inj hp
  rw [hstep] at hstep'
  obtain rfl := Option.some.inj hstep'
  rw [htrial, htrial']

theorem Tries.exists_trial (h : c.Tries t own types trials) {i : Nat} {ty : Ty}
    (hi : types[i]? = some ty) :
    ∃ x, trials[i]? = some x ∧ x.ty = ty ∧ c.generator own.generators ty = .ok x.generate := by
  obtain ⟨plans, steps, last, hplans, hsteps, rfl⟩ := h.exists_plans
  obtain ⟨p, step, hp, -, htrial⟩ := getElem?_trials hplans (Registry.length_replay hsteps) hi
  refine ⟨p.trial step, htrial, ?_, generator_of_plan hp⟩
  have hty := congrArg (·[i]?) h.map_ty
  rw [List.getElem?_map, htrial, hi] at hty
  exact Option.some.inj hty

end Catalog

/-! ## reports of two callers -/

/-- The states of the source at which sections begin, and the last one.  Each is reached from the
one before by as many draws as its section has checked samples. -/
structure Catalog.Threads [RandomSource σ] (c : Catalog) (own : Collaborators σ) (types : List Ty)
    (sections : List Section) (s s' : σ) (sources : List σ) : Prop where
  head : sources.head? = some s
  last : sources.getLast? = some s'
  length : sources.length = types.length + 1
  drawn : ∀ i ty, types[i]? = some ty → ∃ g u u' vs, ∃ e : Section,
    c.generator own.generators ty = .ok g ∧ sections[i]? = some e ∧ sources[i]? = some u ∧
    sources[i + 1]? = some u' ∧ (Draw.times g e.outcome.checked).run u = .ok (vs, u')

/-- The section at a place is for a type, and is an outcome of a trial from the state in which
the sections before have left the source. -/
structure Trial.SectionAt (c : Catalog) (x : Trial σ) (samples : Nat) (sections : List Section)
    (sources : List σ) (i : Nat) (ty : Ty) (u : σ) (o : Outcome) (u' : σ) : Prop where
  before : sources[i]? = some u
  after : sources[i + 1]? = some u'
  reported : sections[i]? = some ⟨c.label ty, c.identity ty, o⟩
  ends : x.Ends c samples u o u'

/-- For a type at a place two callers draw the same from the source: they bring the same for it
and the types in it, or samples of it are generated alike and equally many have been checked. -/
def Catalog.DrawsAlike [RandomSource σ] (c : Catalog) (own own' : Collaborators σ)
    (report report' : Report) (i : Nat) (ty : Ty) : Prop :=
  own.SameWithin c own' ty ∨
    c.generator own.generators ty = c.generator own'.generators ty ∧
      report.sections[i]?.map (·.outcome.checked) = report'.sections[i]?.map (·.outcome.checked)

section Reports

variable [RandomSource σ] {c : Catalog} {t : Tree} {own own' : Collaborators σ} {types : List Ty}
  {trials : List (Trial σ)} {samples i : Nat} {ty : Ty} {s s' u u' : σ} {sections : List Section}
  {sources sources' : List σ} {report report' : Report}

/-- Every type has a section, from where the source was left by those before. -/
theorem Catalog.Tries.exists_threads (h : c.Tries t own types trials) (hpos : 1 ≤ samples)
    (hreports : Reports c samples trials s sections s') :
    ∃ sources, c.Threads own types sections s s' sources ∧
      ∀ i ty, types[i]? = some ty → ∃ x : Trial σ, ∃ u o u', trials[i]? = some x ∧
        x.SectionAt c samples sections sources i ty u o u' := by
  obtain ⟨sources, hhead, hlast, hlen, hsections⟩ := hreports.exists_sources
  have hlength : trials.length = types.length := by rw [← h.map_ty, List.length_map]
  refine ⟨sources, ⟨hhead, hlast, hlength ▸ hlen, fun i ty hi => ?_⟩, fun i ty hi => ?_⟩
  · obtain ⟨x, hx, -, hgenerator⟩ := h.exists_trial hi
    obtain ⟨u, u', o, hu, hu', ho, hends⟩ := hsections i x hx
    obtain ⟨vs, hvs⟩ := (hends.shows hpos).drawn
    exact ⟨x.generate, u, u', vs, _, hgenerator, ho, hu, hu', hvs⟩
  · obtain ⟨x, hx, rfl, -⟩ := h.exists_trial hi
    obtain ⟨u, u', o, hu, hu', ho, hends⟩ := hsections i x hx
    exact ⟨x, u, o, u', hx, hu, hu', ho, hends⟩

/-- Where samples of a type are generated alike, and equally many have been checked, sources that
were in one state are left in one state. -/
theorem Catalog.Threads.getElem?_succ_eq (h : c.Threads own types report.sections s s' sources)
    (h' : c.Threads own' types report'.sections u u' sources') (hi : types[i]? = some ty)
    (hgenerator : c.generator own.generators ty = c.generator own'.generators ty)
    (hchecked : report.sections[i]?.map (·.outcome.checked) =
      report'.sections[i]?.map (·.outcome.checked))
    (hsource : sources[i]? = sources'[i]?) : sources[i + 1]? = sources'[i + 1]? := by
  obtain ⟨g, a, a', vs, e, hg, he, ha, ha', hvs⟩ := h.drawn i ty hi
  obtain ⟨g', b, b', vs', e', hg', he', hb, hb', hvs'⟩ := h'.drawn i ty hi
  rw [hgenerator, hg'] at hg
  obtain rfl := Except.ok.inj hg
  rw [he, he'] at hchecked
  have hchecked : e.outcome.checked = e'.outcome.checked := Option.some.inj hchecked
  rw [hchecked] at hvs
  rw [ha, hb] at hsource
  obtain rfl := Option.some.inj hsource
  rw [hvs'] at hvs
  rw [ha', hb', (Prod.mk.inj (Except.ok.inj hvs)).2]

/-- Sources that begin in one state, and are left in one state by each section before a place,
are in one state there. -/
theorem Catalog.Threads.getElem?_eq (h : c.Threads own types report.sections s s' sources)
    (h' : c.Threads own' types report'.sections s u' sources')
    (hstep : ∀ j < i, sources[j]? = sources'[j]? → sources[j + 1]? = sources'[j + 1]?) :
    sources[i]? = sources'[i]? := by
  induction i with
  | zero => rw [← List.head?_eq_getElem?, ← List.head?_eq_getElem?, h.head, h'.head]
  | succ i ih => exact hstep i (Nat.lt_succ_self i) (ih fun j hj => hstep j (Nat.lt_succ_of_lt hj))

end Reports

/-- Two reports on one tree.  Let their callers bring the same for a type and the types that stand
in it.  The sections for this type are outcomes of one trial, from the states in which the
sections before have left the sources, and they are equal if these are.  So they are if both
begin with one state of the source and draw the same from it for all types before. -/
theorem conformance_sections_agree [RandomSource σ] (c : Catalog) (t : Tree) (samples : Int)
    (own own' : Collaborators σ) (s s' u u' : σ) (report report' : Report)
    (h : (c.conformance t samples own).run s = .ok (report, s'))
    (h' : (c.conformance t samples own').run u = .ok (report', u')) :
    ∃ types : List Ty, ∃ sources sources' : List σ, t.bodyTypes c = .ok types ∧
      c.Threads own types report.sections s s' sources ∧
      c.Threads own' types report'.sections u u' sources' ∧
      ∀ i ty, types[i]? = some ty → own.SameWithin c own' ty →
        (∃ x : Trial σ, ∃ a o a' b o' b',
          x.SectionAt c samples.toNat report.sections sources i ty a o a' ∧
          x.SectionAt c samples.toNat report'.sections sources' i ty b o' b' ∧
          (a = b → o = o' ∧ a' = b')) ∧
        (s = u → (∀ j < i, ∀ ty, types[j]? = some ty → c.DrawsAlike own own' report report' j ty) →
          report.sections[i]? = report'.sections[i]?) := by
  obtain ⟨hpos, types, trials, htries, hreports⟩ := Catalog.exists_reports h
  obtain ⟨-, types', trials', htries', hreports'⟩ := Catalog.exists_reports h'
  obtain rfl := htries.types_eq htries'
  obtain ⟨sources, hthreads, hsections⟩ := htries.exists_threads (by omega) hreports
  obtain ⟨sources', hthreads', hsections'⟩ := htries'.exists_threads (by omega) hreports'
  have hboth : ∀ i ty, types[i]? = some ty → own.SameWithin c own' ty →
      ∃ x : Trial σ, ∃ a o a' b o' b',
        x.SectionAt c samples.toNat report.sections sources i ty a o a' ∧
        x.SectionAt c samples.toNat report'.sections sources' i ty b o' b' ∧
        (a = b → o = o' ∧ a' = b') := by
    intro i ty hi hsame
    obtain ⟨x, a, o, a', hx, hat⟩ := hsections i ty hi
    obtain ⟨x', b, o', b', hx', hat'⟩ := hsections' i ty hi
    rw [htries.getElem?_eq htries' hi hsame, hx'] at hx
    obtain rfl := Option.some.inj hx
    refine ⟨_, a, o, a', b, o', b', hat, hat', ?_⟩
    rintro rfl
    exact hat.ends.unique hat'.ends
  refine ⟨types, sources, sources', htries.bodyTypes, hthreads, hthreads', fun i ty hi hsame =>
    ⟨hboth i ty hi hsame, ?_⟩⟩
  rintro rfl halike
  have hsource : sources[i]? = sources'[i]? := by
    refine hthreads.getElem?_eq hthreads' fun j hj hsource => ?_
    have hlt : j < types.length := hj.trans (List.getElem?_eq_some_iff.1 hi).1
    have hty := List.getElem?_eq_getElem hlt
    -- the type before is tried in one way, or draws equally often
    rcases halike j hj _ hty with hsame | ⟨hgenerator, hchecked⟩
    · obtain ⟨x, a, o, a', b, o', b', hat, hat', heq⟩ := hboth j _ hty hsame
      rw [hat.before, hat'.before] at hsource
      rw [hat.after, hat'.after, (heq (Option.some.inj hsource)).2]
    · exact hthreads.getElem?_succ_eq hthreads' hty hgenerator hchecked hsource
  obtain ⟨x, a, o, a', b, o', b', hat, hat', heq⟩ := hboth i ty hi hsame
  rw [hat.before, hat'.before] at hsource
  rw [hat.reported, hat'.reported, (heq (Option.some.inj hsource)).1]

/-- A tree that answers with a text or with a number. -/
def textAndNumber : Tree :=
  .alt (.leaf { method := .get, returns := .scalar .str })
    (.leaf { method := .post, returns := .scalar .int })

/-- An encoder of numbers that gives up. -/
def brokenNumberEncoder : Collaborators Congruential :=
  { encoders := [(Catalog.identity [] (.scalar .int), fun _ => .error (.collaborator "broken"))] }

/-- What is brought for the numbers does not count for the texts, which are before them.  What is
brought for the texts counts for the numbers: where texts cannot be encoded other numbers are
drawn. -/
theorem textAndNumber_sections_agree :
    ∃ report report' report'' : Report, ∃ s s' s'' : Congruential,
      (Catalog.conformance [] textAndNumber 2 {}).run (.ofSeed 0) = .ok (report, s) ∧
      (Catalog.conformance [] textAndNumber 2 brokenNumberEncoder).run (.ofSeed 0) =
        .ok (report', s') ∧
      (Catalog.conformance [] textAndNumber 2 brokenEncoder).run (.ofSeed 0) =
        .ok (report'', s'') ∧
      report.sections[0]? = report'.sections[0]? ∧
      report.sections[1]? ≠ report''.sections[1]? := by
  have hok : ((Catalog.conformance [] textAndNumber 2 {}).run (Congruential.ofSeed 0)).toOption.any
      (fun r => r.1.sections[1]?.map (·.outcome.sample.inText) = some "388185918047197245") =
        true := by decide +kernel
  have hok' : ((Catalog.conformance [] textAndNumber 2 brokenNumberEncoder).run
      (.ofSeed 0)).toOption.isSome = true := by decide +kernel
  have hok'' : ((Catalog.conformance [] textAndNumber 2 brokenEncoder).run
      (.ofSeed 0)).toOption.any (fun r =>
        r.1.sections[1]?.map (·.outcome.sample.inText) = some "10658804693869012033") = true := by
    decide +kernel
  obtain ⟨⟨report, s⟩, hrun, hnumber⟩ := (Option.any_eq_true _ _).1 hok
  obtain ⟨⟨report', s'⟩, hrun'⟩ := isSome_toOption_iff.1 hok'
  obtain ⟨⟨report'', s''⟩, hrun'', hnumber''⟩ := (Option.any_eq_true _ _).1 hok''
  have hrun := toOption_eq_some_iff.1 hrun
  refine ⟨report, report', report'', s, s', s'', hrun, hrun', toOption_eq_some_iff.1 hrun'', ?_,
    fun heq => ?_⟩
  · obtain ⟨types, sources, sources', htypes, -, -, hagree⟩ :=
      conformance_sections_agree [] textAndNumber 2 {} brokenNumberEncoder _ s _ s' report report'
        hrun hrun'
    obtain rfl : [.scalar .str, .scalar .int] = types := Except.ok.inj htypes
    refine (hagree 0 (.scalar .str) rfl ?_).2 rfl (fun j hj => absurd hj (Nat.not_lt_zero j))
    intro v hv
    cases hv
    exact ⟨rfl, rfl, rfl⟩
  · have hsamples := of_decide_eq_true hnumber
    rw [heq, of_decide_eq_true hnumber''] at hsamples
    exact absurd hsamples (by decide)

end ApiTree
