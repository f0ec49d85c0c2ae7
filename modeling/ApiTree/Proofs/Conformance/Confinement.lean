import ApiTree.Proofs.Compilation.Publication
import ApiTree.Proofs.Sample.Draws

/-!
# ApiTree.Proofs.Conformance.Confinement

How far it reaches when something that a caller brings gives up.  The samples of a type are
drawn, encoded and checked one after the other, up to the first that does not pass.  If that
one cannot be encoded, or violates its schema, this is the outcome for the type (`Trial.Ends`)
and the next type has its turn.  If it cannot be drawn, or its check gives up, everything stops
(`Trial.Stops`).

* `Trial.ends_or_stops`, `Trial.run_probed_ok_iff` — these are the ways that the samples of a
  type can go;
* `conformance_reports` — so there is a report, with a section for each type, exactly if no type
  stops.
-/

namespace ApiTree

/-! ## samples of one type -/

/-- What the samples of a type are drawn, encoded and checked with. -/
structure Trial (σ : Type) where
  ty : Ty
  generate : Draw σ Value
  encode : Encoder
  check : Json → Except Fault (Option Violation)

/-- The sample that is shown for some that pass: the first that is not encoded as null. -/
def shownOf (first j : Json) : Json :=
  match first with
  | .null => j
  | _ => first

namespace Trial

variable {σ : Type} {x : Trial σ} {s s' : σ} {samples : Nat}

/-- Samples that are drawn one after the other, encoded as the given values, and pass. -/
inductive Passes (x : Trial σ) : σ → List Json → σ → Prop
  | none (s : σ) : Passes x s [] s
  | more {s s₁ s₂ : σ} {v : Value} {j : Json} {js : List Json}
    (draw : x.generate.run s = .ok (v, s₁)) (encode : x.encode v = .ok j)
    (check : x.check j = .ok Option.none) (rest : Passes x s₁ js s₂) : Passes x s (j :: js) s₂

/-- The outcomes that a number of samples can have. -/
inductive Ends (c : Catalog) (x : Trial σ) (samples : Nat) (s : σ) : Outcome → σ → Prop
  /-- All of them pass. -/
  | passed {js : List Json} {s' : σ} (h : x.Passes s js s') (hlen : js.length = samples) :
    Ends c x samples s ⟨samples, js.foldl shownOf .null, none⟩ s'
  /-- One is reached that cannot be encoded. -/
  | unencodable {js : List Json} {s₁ s' : σ} {v : Value} {f : Fault} (h : x.Passes s js s₁)
    (hlen : js.length < samples) (draw : x.generate.run s₁ = .ok (v, s'))
    (encode : x.encode v = .error f) :
    Ends c x samples s ⟨js.length + 1, .str (v.shown c), some (.here (.encoding f))⟩ s'
  /-- One is reached that violates the schema. -/
  | violates {js : List Json} {s₁ s' : σ} {v : Value} {j : Json} {violation : Violation}
    (h : x.Passes s js s₁) (hlen : js.length < samples) (draw : x.generate.run s₁ = .ok (v, s'))
    (encode : x.encode v = .ok j) (check : x.check j = .ok (some violation)) :
    Ends c x samples s ⟨js.length + 1, j, some violation⟩ s'

/-- The faults that a number of samples can stop with. -/
inductive Stops (x : Trial σ) (samples : Nat) (s : σ) : Fault → Prop
  /-- The next sample cannot be drawn. -/
  | undrawn {js : List Json} {s₁ : σ} {f : Fault} (h : x.Passes s js s₁)
    (hlen : js.length < samples) (draw : x.generate.run s₁ = .error f) : Stops x samples s f
  /-- The check of the next sample gives up. -/
  | unchecked {js : List Json} {s₁ s₂ : σ} {v : Value} {j : Json} {f : Fault}
    (h : x.Passes s js s₁) (hlen : js.length < samples) (draw : x.generate.run s₁ = .ok (v, s₂))
    (encode : x.encode v = .ok j) (check : x.check j = .error f) : Stops x samples s f

/-- Samples after one that passes come to an outcome with it. -/
theorem Ends.more {c : Catalog} {s₁ : σ} {v : Value} {j : Json} {o : Outcome}
    (draw : x.generate.run s = .ok (v, s₁)) (encode : x.encode v = .ok j)
    (check : x.check j = .ok none) (h : x.Ends c samples s₁ o s') :
    ∃ o, x.Ends c (samples + 1) s o s' := by
  cases h with
  | passed h hlen => exact ⟨_, .passed (.more draw encode check h) (by simp [hlen])⟩
  | unencodable h hlen hdraw hencode =>
      exact ⟨_, .unencodable (.more draw encode check h) (by simpa using hlen) hdraw hencode⟩
  | violates h hlen hdraw hencode hcheck =>
      exact ⟨_, .violates (.more draw encode check h) (by simpa using hlen) hdraw hencode hcheck⟩

/-- After a sample that passes the samples stop as the others do. -/
theorem Stops.more {s₁ : σ} {v : Value} {j : Json} {f : Fault}
    (draw : x.generate.run s = .ok (v, s₁)) (encode : x.encode v = .ok j)
    (check : x.check j = .ok none) (h : x.Stops samples s₁ f) : x.Stops (samples + 1) s f := by
  cases h with
  | undrawn h hlen hdraw => exact .undrawn (.more draw encode check h) (by simpa using hlen) hdraw
  | unchecked h hlen hdraw hencode hcheck =>
      exact .unchecked (.more draw encode check h) (by simpa using hlen) hdraw hencode hcheck

/-- Samples come to an outcome or stop. -/
theorem ends_or_stops (c : Catalog) (x : Trial σ) (samples : Nat) (s : σ) :
    (∃ o s', x.Ends c samples s o s') ∨ ∃ f, x.Stops samples s f := by
  induction samples generalizing s with
  | zero => exact .inl ⟨_, s, .passed (.none s) rfl⟩
  | succ n ih =>
      cases hdraw : x.generate.run s with
      | error f => exact .inr ⟨f, .undrawn (.none s) (by simp) hdraw⟩
      | ok drawn =>
          obtain ⟨v, s₁⟩ := drawn
          cases hencode : x.encode v with
          | error f => exact .inl ⟨_, s₁, .unencodable (.none s) (by simp) hdraw hencode⟩
          | ok j =>
              rcases hcheck : x.check j with f | (_ | violation)
              · exact .inr ⟨f, .unchecked (.none s) (by simp) hdraw hencode hcheck⟩
              · rcases ih s₁ with ⟨o, s', h⟩ | ⟨f, h⟩
                · obtain ⟨o, h⟩ := h.more hdraw hencode hcheck
                  exact .inl ⟨o, s', h⟩
                · exact .inr ⟨f, h.more hdraw hencode hcheck⟩
              · exact .inl ⟨_, s₁, .violates (.none s) (by simp) hdraw hencode hcheck⟩

section Probe

variable {left done : Nat} {first : Json} {s₁ : σ} {v : Value}

/-- Draws and judges the samples of a trial. -/
def probed (c : Catalog) (x : Trial σ) (left done : Nat) (first : Json) : Draw σ Outcome :=
  Catalog.probe x.generate (c.judge x.encode x.check) left done first

/-- A sample that cannot be drawn stops everything. -/
theorem run_probed_of_undrawn {c : Catalog} {f : Fault} (draw : x.generate.run s = .error f) :
    (probed c x (left + 1) done first).run s = .error f := by
  rw [probed, Catalog.probe, Draw.run_bind_of_error draw]

/-- A sample that is drawn is judged. -/
theorem run_probed_of_drawn {c : Catalog} (draw : x.generate.run s = .ok (v, s₁)) :
    (probed c x (left + 1) done first).run s =
      match c.judge x.encode x.check v with
      | .error f => .error f
      | .ok (j, some violation) => .ok (⟨done + 1, j, some violation⟩, s₁)
      | .ok (j, none) => (probed c x left (done + 1) (shownOf first j)).run s₁ := by
  rw [probed, Catalog.probe, Draw.run_bind_of_ok draw, StateT.run_bind]
  rcases c.judge x.encode x.check v with f | ⟨j, _ | violation⟩ <;> rfl

/-- Probing goes on after samples that pass. -/
theorem run_probed_of_passes {c : Catalog} {js : List Json} (h : x.Passes s js s')
    (left done : Nat) (first : Json) : (probed c x (left + js.length) done first).run s =
      (probed c x left (done + js.length) (js.foldl shownOf first)).run s' := by
  induction h generalizing done first with
  | none s => rfl
  | @more s s₁ s₂ v j js draw encode check rest ih =>
      have hjudge : c.judge x.encode x.check v = .ok (j, none) := by
        simp only [Catalog.judge, encode, check]
        rfl
      rw [List.length_cons, ← Nat.add_assoc, run_probed_of_drawn draw, hjudge]
      simp only [ih, List.foldl_cons, Nat.add_assoc, Nat.add_comm 1]

/-- What probing comes to if there are samples that pass and not all have been drawn. -/
theorem run_probed_of_passes_lt {c : Catalog} {js : List Json} (h : x.Passes s js s')
    (hlen : js.length < samples) : ∃ left, (probed c x samples 0 .null).run s =
      (probed c x (left + 1) js.length (js.foldl shownOf .null)).run s' := by
  obtain ⟨left, rfl⟩ : ∃ left, samples = left + 1 + js.length := ⟨samples - js.length - 1, by omega⟩
  exact ⟨left, by rw [run_probed_of_passes h, Nat.zero_add]⟩

/-- Samples that end come to their outcome. -/
theorem run_probed_of_ends {c : Catalog} {o : Outcome} (h : x.Ends c samples s o s') :
    (probed c x samples 0 .null).run s = .ok (o, s') := by
  cases h with
  | passed h hlen =>
      have hrun := run_probed_of_passes (c := c) h 0 0 .null
      rw [Nat.zero_add, hlen] at hrun
      exact hrun
  | unencodable h hlen draw encode =>
      obtain ⟨left, hrun⟩ := run_probed_of_passes_lt (c := c) h hlen
      rw [hrun, run_probed_of_drawn draw, Catalog.judge, encode]
  | violates h hlen draw encode check =>
      obtain ⟨left, hrun⟩ := run_probed_of_passes_lt (c := c) h hlen
      rw [hrun, run_probed_of_drawn draw]
      simp only [Catalog.judge, encode, check]
      rfl

/-- Samples that stop come to their fault. -/
theorem run_probed_of_stops {c : Catalog} {f : Fault} (h : x.Stops samples s f) :
    (probed c x samples 0 .null).run s = .error f := by
  cases h with
  | undrawn h hlen draw =>
      obtain ⟨left, hrun⟩ := run_probed_of_passes_lt (c := c) h hlen
      rw [hrun, run_probed_of_undrawn draw]
  | unchecked h hlen draw encode check =>
      obtain ⟨left, hrun⟩ := run_probed_of_passes_lt (c := c) h hlen
      rw [hrun, run_probed_of_drawn draw]
      simp only [Catalog.judge, encode, check]
      rfl

/-- The samples of a type come to the outcomes that they can have. -/
theorem run_probed_ok_iff {c : Catalog} {o : Outcome} :
    (probed c x samples 0 .null).run s = .ok (o, s') ↔ x.Ends c samples s o s' := by
  refine ⟨fun h => ?_, run_probed_of_ends⟩
  rcases ends_or_stops c x samples s with ⟨o', s'', hends⟩ | ⟨f, hstops⟩
  · rw [run_probed_of_ends hends] at h
    obtain ⟨rfl, rfl⟩ := Prod.mk.inj (Except.ok.inj h)
    exact hends
  · rw [run_probed_of_stops hstops] at h
    cases h

end Probe

end Trial

/-! ## the types of a tree -/

variable {σ : Type}

/-- The trial of a planned type, with the schema that is given for it and the components that
there are then. -/
def Plan.trial (p : Plan σ) (step : Schema × Registry) : Trial σ where
  ty := p.ty
  generate := p.generate
  encode := p.encode
  check j := Check.run step.2.definitions p.rule j (.obj step.1)

/-- Trials come to a section each, one after the other; each begins where the source was left. -/
inductive Reports (c : Catalog) (samples : Nat) : List (Trial σ) → σ → List Section → σ → Prop
  | nil (s : σ) : Reports c samples [] s [] s
  | cons {x : Trial σ} {xs : List (Trial σ)} {s s₁ s₂ : σ} {o : Outcome} {sections : List Section}
    (ends : x.Ends c samples s o s₁) (rest : Reports c samples xs s₁ sections s₂) :
    Reports c samples (x :: xs) s (⟨c.label x.ty, c.identity x.ty, o⟩ :: sections) s₂

/-- A trial stops with a fault, when those before it have come to their sections. -/
inductive Halts (c : Catalog) (samples : Nat) : List (Trial σ) → σ → Fault → Prop
  | here {x : Trial σ} {xs : List (Trial σ)} {s : σ} {f : Fault} (stops : x.Stops samples s f) :
    Halts c samples (x :: xs) s f
  | later {x : Trial σ} {xs : List (Trial σ)} {s s₁ : σ} {o : Outcome} {f : Fault}
    (ends : x.Ends c samples s o s₁) (rest : Halts c samples xs s₁ f) :
    Halts c samples (x :: xs) s f

/-- The section of a trial. -/
def Trial.section (c : Catalog) (samples : Nat) (x : Trial σ) : Draw σ Section := do
  return ⟨c.label x.ty, c.identity x.ty, ← x.probed c samples 0 .null⟩

section Trials

variable {c : Catalog} {samples : Nat} {xs : List (Trial σ)} {s s' : σ} {sections : List Section}

/-- The types get their sections, or one of them stops everything. -/
theorem reports_or_halts (c : Catalog) (samples : Nat) (xs : List (Trial σ)) (s : σ) :
    (∃ sections s', Reports c samples xs s sections s') ∨ ∃ f, Halts c samples xs s f := by
  induction xs generalizing s with
  | nil => exact .inl ⟨[], s, .nil s⟩
  | cons x xs ih =>
      rcases x.ends_or_stops c samples s with ⟨o, s₁, hends⟩ | ⟨f, hstops⟩
      · rcases ih s₁ with ⟨sections, s₂, h⟩ | ⟨f, h⟩
        · exact .inl ⟨_, s₂, .cons hends h⟩
        · exact .inr ⟨f, .later hends h⟩
      · exact .inr ⟨f, .here hstops⟩

/-- The section of a type tells the outcome of its samples. -/
theorem Trial.run_section_of_ends {x : Trial σ} {o : Outcome} (h : x.Ends c samples s o s') :
    (x.section c samples).run s = .ok (⟨c.label x.ty, c.identity x.ty, o⟩, s') :=
  Draw.run_bind_of_ok (run_probed_of_ends h) _

/-- Types that get sections are reported. -/
theorem run_sections_of_reports (h : Reports c samples xs s sections s') :
    (xs.mapM (Trial.section c samples)).run s = .ok (sections, s') := by
  induction h with
  | nil s => rfl
  | cons ends rest ih =>
      rw [List.mapM_cons, Draw.run_bind_of_ok (Trial.run_section_of_ends ends),
        Draw.run_bind_of_ok ih]
      rfl

/-- A type that stops is the fault of the whole. -/
theorem run_sections_of_halts {f : Fault} (h : Halts c samples xs s f) :
    (xs.mapM (Trial.section c samples)).run s = .error f := by
  induction h with
  | here stops =>
      rw [List.mapM_cons, Trial.section,
        Draw.run_bind_of_error (Draw.run_bind_of_error (Trial.run_probed_of_stops stops) _)]
  | later ends rest ih =>
      rw [List.mapM_cons, Draw.run_bind_of_ok (Trial.run_section_of_ends ends),
        Draw.run_bind_of_error ih]

/-- There is a report exactly if all types get sections. -/
theorem run_sections_ok_iff :
    (xs.mapM (Trial.section c samples)).run s = .ok (sections, s') ↔
      Reports c samples xs s sections s' := by
  refine ⟨fun h => ?_, run_sections_of_reports⟩
  rcases reports_or_halts c samples xs s with ⟨sections', s'', hreports⟩ | ⟨f, hhalts⟩
  · rw [run_sections_of_reports hreports] at h
    obtain ⟨rfl, rfl⟩ := Prod.mk.inj (Except.ok.inj h)
    exact hreports
  · rw [run_sections_of_halts hhalts] at h
    cases h

/-- There is a fault exactly if some type stops. -/
theorem run_sections_error_iff {f : Fault} :
    (xs.mapM (Trial.section c samples)).run s = .error f ↔ Halts c samples xs s f := by
  refine ⟨fun h => ?_, run_sections_of_halts⟩
  rcases reports_or_halts c samples xs s with ⟨sections', s'', hreports⟩ | ⟨f', hhalts⟩
  · rw [run_sections_of_reports hreports] at h
    cases h
  · rw [run_sections_of_halts hhalts] at h
    obtain rfl := Except.error.inj h
    exact hhalts

/-- There is a section for each type, in order. -/
theorem Reports.types_eq (h : Reports c samples xs s sections s') :
    sections.map (fun e => (e.label, e.identity)) =
      xs.map fun x => (c.label x.ty, c.identity x.ty) := by
  induction h with
  | nil s => rfl
  | cons ends rest ih => rw [List.map_cons, List.map_cons, ih]

/-- Whatever encoders do, types whose samples can be drawn and whose checks come to an end do
not stop. -/
theorem not_halts (hdraw : ∀ x ∈ xs, ∀ s, ∃ v s', x.generate.run s = .ok (v, s'))
    (hcheck : ∀ x ∈ xs, ∀ j, ∃ violation, x.check j = .ok violation) (f : Fault) :
    ¬ Halts c samples xs s f := by
  intro h
  induction h with
  | here stops =>
      cases stops with
      | undrawn h hlen draw =>
          obtain ⟨v, s', hv⟩ := hdraw _ List.mem_cons_self _
          rw [hv] at draw
          cases draw
      | unchecked h hlen draw encode check =>
          obtain ⟨violation, hviolation⟩ := hcheck _ List.mem_cons_self _
          rw [hviolation] at check
          cases check
  | later ends rest ih =>
      exact ih (fun x hx => hdraw x (List.mem_cons_of_mem _ hx))
        fun x hx => hcheck x (List.mem_cons_of_mem _ hx)

end Trials

/-! ## reports -/

/-- The plans are checked type by type, each with its step of the replay. -/
theorem Catalog.checkPlans_eq_sections [RandomSource σ] (c : Catalog) (samples : Nat)
    {ps : List (Plan σ)} {steps : List (Schema × Registry)} {r r' : Registry}
    (h : (Registry.replay c (ps.map (·.ty))).run.run r = (.ok steps, r')) :
    c.checkPlans samples ps r =
      ((ps.zip steps).map fun e => e.1.trial e.2).mapM (Trial.section c samples) := by
  rw [c.checkPlans_of_replay samples h, List.mapM_map]
  rfl

/-- There is a plan for each type. -/
theorem Catalog.map_ty_of_plans [RandomSource σ] {c : Catalog} {own : Collaborators σ}
    {types : List Ty} {plans : List (Plan σ)} (h : types.mapM (c.plan own) = .ok plans) :
    plans.map (·.ty) = types := by
  induction types generalizing plans with
  | nil =>
      obtain rfl := pure_eq_ok_iff.1 h
      rfl
  | cons t ts ih =>
      rw [List.mapM_cons] at h
      obtain ⟨p, hp, h⟩ := bind_eq_ok_iff.1 h
      obtain ⟨ps, hps, h⟩ := bind_eq_ok_iff.1 h
      obtain rfl := pure_eq_ok_iff.1 h
      obtain ⟨generate, -, hp⟩ := bind_eq_ok_iff.1 hp
      obtain ⟨encode, -, hp⟩ := bind_eq_ok_iff.1 hp
      obtain rfl := pure_eq_ok_iff.1 hp
      rw [List.map_cons, ih hps]

/-- Let the types of the bodies of a tree all have what checking them needs, and let a schema be
given for each when they are asked for in order.  There is a report, from a state of a source,
exactly with the sections that the types come to, one for each type in order; and everything
stops with a fault exactly if a type stops with it, whose turn it is.  Encoders that give up do
not stop anything: there is a report wherever samples are drawn and checks come to an end. -/
theorem conformance_reports [RandomSource σ] (c : Catalog) (t : Tree) (samples : Int)
    (own : Collaborators σ) (types : List Ty) (plans : List (Plan σ))
    (steps : List (Schema × Registry)) (last : Registry) (hsamples : 1 ≤ samples)
    (htypes : t.bodyTypes c = .ok types) (hplans : types.mapM (c.plan own) = .ok plans)
    (hsteps : (Registry.replay c types).run.run {} = (.ok steps, last)) :
    let trials := (plans.zip steps).map fun e => e.1.trial e.2
    (∀ s report s', (c.conformance t samples own).run s = .ok (report, s') ↔
      Reports c samples.toNat trials s report.sections s') ∧
    (∀ s f, (c.conformance t samples own).run s = .error f ↔ Halts c samples.toNat trials s f) ∧
    (∀ s sections s', Reports c samples.toNat trials s sections s' →
      sections.map (fun e => (e.label, e.identity)) =
        types.map fun ty => (c.label ty, c.identity ty)) ∧
    ((∀ x ∈ trials, ∀ s, ∃ v s', x.generate.run s = .ok (v, s')) →
      (∀ x ∈ trials, ∀ j, ∃ violation, x.check j = .ok violation) →
      ∀ s, ∃ report s', (c.conformance t samples own).run s = .ok (report, s')) := by
  intro trials
  have hty := Catalog.map_ty_of_plans hplans
  have hrun : ∀ s, (c.conformance t samples own).run s =
      ((trials.mapM (Trial.section c samples.toNat)).run s).map fun e => (⟨e.1⟩, e.2) := by
    intro s
    have hfew : ¬ samples < 1 := by omega
    have hfound : c.plans own t = .ok plans := bind_eq_ok_iff.2 ⟨types, htypes, hplans⟩
    rw [Catalog.conformance, if_neg hfew, hfound]
    change (do return ⟨← c.checkPlans samples.toNat plans {}⟩ : Draw σ Report).run s = _
    rw [c.checkPlans_eq_sections samples.toNat (hty.symm ▸ hsteps), StateT.run_bind]
    cases (trials.mapM (Trial.section c samples.toNat)).run s <;> rfl
  have hlen : plans.length ≤ steps.length := by
    rw [Registry.length_replay hsteps, ← hty, List.length_map]
  have htypes : trials.map (fun x => (c.label x.ty, c.identity x.ty)) =
      types.map fun ty => (c.label ty, c.identity ty) := by
    have hplans : (plans.zip steps).map (fun e => e.1.ty) = types := by
      rw [← hty]
      exact (List.map_map (l := plans.zip steps) (f := Prod.fst) (g := (·.ty))).symm.trans
        (congrArg (List.map (·.ty)) (List.map_fst_zip hlen))
    rw [← hplans, List.map_map, List.map_map]
    rfl
  refine ⟨fun s report s' => ?_, fun s f => ?_, fun s sections s' h => h.types_eq.trans htypes,
    fun hdraw hcheck s => ?_⟩
  · rw [hrun, ← run_sections_ok_iff]
    obtain ⟨sections⟩ := report
    cases (trials.mapM (Trial.section c samples.toNat)).run s <;> simp [Except.map, Prod.ext_iff]
  · rw [hrun, ← run_sections_error_iff]
    cases (trials.mapM (Trial.section c samples.toNat)).run s <;> simp [Except.map]
  · rcases reports_or_halts c samples.toNat trials s with ⟨sections, s', h⟩ | ⟨f, h⟩
    · exact ⟨⟨sections⟩, s', by rw [hrun, run_sections_of_reports h]; rfl⟩
    · exact absurd h (not_halts hdraw hcheck f)

/-- A tree that answers with a text or with a truth value. -/
def textAndFlag : Tree :=
  .alt (.leaf { method := .get, returns := .scalar .str })
    (.leaf { method := .post, returns := .scalar .bool })

/-- An encoder of texts that gives up. -/
def brokenEncoder : Collaborators Congruential :=
  { encoders := [(Catalog.identity [] (.scalar .str), fun _ => .error (.collaborator "broken"))] }

/-- A generator of texts that gives up. -/
def brokenGenerator : Collaborators Congruential :=
  { generators := [(Catalog.identity [] (.scalar .str), throw (.collaborator "broken"))] }

/-- An encoder that gives up makes its own section fail; a generator that gives up leaves no
report. -/
theorem textAndFlag_reports :
    (∃ report s', (Catalog.conformance [] textAndFlag 2 brokenEncoder).run (.ofSeed 0) =
        .ok (report, s') ∧ report.sections.map (·.label) = ["str", "bool"] ∧
      report.sections.map (·.passed) = [false, true]) ∧
    (Catalog.conformance [] textAndFlag 2 brokenGenerator).run (.ofSeed 0) =
      .error (.collaborator "broken") := by
  have htypes : textAndFlag.bodyTypes [] = .ok [.scalar .str, .scalar .bool] := rfl
  obtain ⟨steps, hreplay⟩ : ∃ steps,
      ((Registry.replay [] [.scalar .str, .scalar .bool]).run.run {}).1 = .ok steps :=
    isSome_toOption_iff.1 (by decide +kernel)
  have hsteps : (Registry.replay [] [.scalar .str, .scalar .bool]).run.run {} =
      (.ok steps, ((Registry.replay [] [.scalar .str, .scalar .bool]).run.run {}).2) :=
    Prod.ext hreplay rfl
  constructor
  · obtain ⟨plans, hplans⟩ : ∃ plans,
        [.scalar .str, .scalar .bool].mapM (Catalog.plan [] brokenEncoder) = .ok plans :=
      isSome_toOption_iff.1 (by decide +kernel)
    obtain ⟨hok, -, hlabels, -⟩ :=
      conformance_reports [] textAndFlag 2 brokenEncoder _ plans steps _ (by decide) htypes hplans
        hsteps
    have hrun : ((Catalog.conformance [] textAndFlag 2 brokenEncoder).run (.ofSeed 0)).toOption.any
        (fun r => r.1.sections.map (·.passed) = [false, true]) = true := by decide +kernel
    obtain ⟨⟨report, s'⟩, hrun, hpassed⟩ := (Option.any_eq_true _ _).1 hrun
    have hrun := toOption_eq_some_iff.1 hrun
    refine ⟨report, s', hrun, ?_, by simpa using hpassed⟩
    have hnames := congrArg (List.map Prod.fst) (hlabels _ _ _ ((hok _ _ _).1 hrun))
    rw [List.map_map] at hnames
    exact hnames
  · obtain ⟨plans, hplans⟩ : ∃ plans,
        [.scalar .str, .scalar .bool].mapM (Catalog.plan [] brokenGenerator) = .ok plans :=
      isSome_toOption_iff.1 (by decide +kernel)
    obtain ⟨-, herror, -⟩ :=
      conformance_reports [] textAndFlag 2 brokenGenerator _ plans steps _ (by decide) htypes hplans
        hsteps
    refine (herror _ _).2 ?_
    obtain ⟨p, hp, hplans⟩ := bind_eq_ok_iff.1 hplans
    obtain ⟨ps, -, hplans⟩ := bind_eq_ok_iff.1 hplans
    obtain rfl := pure_eq_ok_iff.1 hplans
    obtain ⟨generate, hgenerate, hp⟩ := bind_eq_ok_iff.1 hp
    obtain ⟨encode, -, hp⟩ := bind_eq_ok_iff.1 hp
    obtain rfl := pure_eq_ok_iff.1 hp
    have hbroken : Catalog.generator [] brokenGenerator.generators (.scalar .str) =
        .ok (throw (.collaborator "broken")) := rfl
    obtain rfl := Except.ok.inj (hbroken.symm.trans hgenerate)
    obtain ⟨step, steps, rfl⟩ :=
      List.exists_cons_of_length_eq_add_one (Registry.length_replay hsteps)
    exact .here (.undrawn (.none _) (by decide) rfl)

end ApiTree
