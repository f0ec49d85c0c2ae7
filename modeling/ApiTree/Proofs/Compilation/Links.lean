import ApiTree.Proofs.Compilation.Operations
import ApiTree.Proofs.Schema.Registry

/-!
# ApiTree.Proofs.Compilation.Links

No reference in a document is dangling.  `Compiling.Linked` is the invariant of
the steps of compiling: a step only adds components, keeps the registry closed,
and what it gives leads into the components, if what it was given does.  Steps
put together keep it (`Compiling.linked_bind`).  Merging makes operations of parts
that it was given (`Operation.mem_schemas_united`).

* `compile_leadsInto` — every schema of a document leads into its components,
  if what is derived for each type of the tree is closed.
-/

namespace ApiTree

/-! ## schemas of a document -/

/-- The schemas of a content. -/
def contentSchemas (t : Table String MediaType) : List Schema := t.filterMap fun e => e.2.schema

/-- The schemas of a response: those of its content and of its headers. -/
def Response.schemas (r : Response) : List Schema :=
  contentSchemas r.content ++ r.headers.filterMap fun e => e.2.schema

/-- The schemas of the parameters and of the body. -/
def requestSchemas (ps : List Parameter) (body : Option RequestBody) : List Schema :=
  ps.filterMap (·.schema) ++ body.toList.flatMap fun b => contentSchemas b.content

/-- The schemas of an operation. -/
def Operation.schemas (op : Operation) : List Schema :=
  requestSchemas op.parameters op.requestBody ++ op.responses.flatMap fun e => e.2.schemas

/-- The schemas of a document: those of its operations and its components. -/
def Document.schemas (d : Document) : List Schema :=
  (d.paths.flatMap fun e => e.2.operations.flatMap fun e => e.2.schemas) ++
    d.components.schemas.map (·.2)

/-! ## types of a tree -/

/-- A type as that of a content; no content has no type. -/
def Ty.asContent : Ty → List Ty
  | .nothing => []
  | t => [t]

/-- The types that a qualifier refers to. -/
def Qualifier.types : Qualifier → List Ty
  | .capture _ t _ | .captureAll _ t _ | .query _ t _ _ | .queries _ t _ | .header _ t _ _
  | .body t _ _ => [t]
  | _ => []

/-- The types that an endpoint refers to. -/
def Endpoint.types (e : Endpoint) : List Ty :=
  e.returns.asContent ++ e.headers.map (·.ty) ++ e.responses.flatMap fun r => r.returns.asContent

/-- The types that a route refers to. -/
def Route.types (r : Route) : List Ty := r.qualifiers.flatMap Qualifier.types ++ r.endpoint.types

/-- The types that a tree refers to. -/
def Tree.types : Tree → List Ty
  | .leaf e => e.types
  | .seq q t => q.types ++ types t
  | .alt l r => types l ++ types r
  | .empty | .alien _ => []

/-- The types of a route stand in the tree, or in the qualifiers above it. -/
theorem Tree.mem_types_of_routes {t : Tree} {above : List Qualifier} {rs : List Route}
    (h : t.routes above = .ok rs) {r : Route} (hr : r ∈ rs) :
    ∀ ty ∈ r.types, ty ∈ above.flatMap Qualifier.types ++ t.types := by
  induction t generalizing above rs with
  | leaf e =>
      obtain rfl := Except.ok.inj h
      rw [List.mem_singleton.1 hr]
      exact fun ty => id
  | seq q t ih =>
      intro ty hty
      have hmem := ih h hr ty hty
      rw [List.flatMap_append, List.append_assoc] at hmem
      simpa [types] using hmem
  | alt l r ihl ihr =>
      obtain ⟨ls, rs, hls, hrs, rfl⟩ := routes_alt_ok h
      intro ty hty
      rw [types, ← List.append_assoc]
      rcases List.mem_append.1 hr with hr | hr
      · exact List.mem_append_left _ (ihl hls hr ty hty)
      · rcases List.mem_append.1 (ihr hrs hr ty hty) with hmem | hmem
        · exact List.mem_append_left _ (List.mem_append_left _ hmem)
        · exact List.mem_append_right _ hmem
  | empty =>
      obtain rfl := Except.ok.inj h
      simp at hr
  | alien a => simp [routes] at h

/-! ## steps that link -/

namespace Compiling

variable {α β : Type} {given : List Schema}

/-- In a closed registry whose components the given schemas lead into, a step keeps
the registry closed and every component, and the schemas of its result lead
into the components. -/
def Linked (given : List Schema) (m : Compiling α) (schemas : α → List Schema) : Prop :=
  ∀ s a s', s.registry.Closed → (∀ x ∈ given, LeadsInto s.registry.names x) →
    m.run s = .ok (a, s') →
    s'.registry.Closed ∧ s.registry.names ⊆ s'.registry.names ∧
      ∀ x ∈ schemas a, LeadsInto s'.registry.names x

theorem linked_pure {a : α} {schemas : α → List Schema}
    (h : ∀ names, (∀ x ∈ given, LeadsInto names x) → ∀ x ∈ schemas a, LeadsInto names x) :
    Linked given (pure a) schemas := by
  intro s b s' hs hgiven hrun
  obtain ⟨rfl, rfl⟩ := run_pure_ok.1 hrun
  exact ⟨hs, fun _ => id, h _ hgiven⟩

/-- Two steps are linked if each is, the second with the schemas of the first. -/
theorem linked_bind {m : Compiling α} {f : α → Compiling β} {first : α → List Schema}
    {last : β → List Schema} (hm : Linked given m first)
    (hf : ∀ a, Linked (given ++ first a) (f a) last) : Linked given (m >>= f) last := by
  intro s b s' hs hgiven hrun
  obtain ⟨a, t, ha, hb⟩ := run_bind_ok.1 hrun
  obtain ⟨ht, hsub, hfirst⟩ := hm s a t hs hgiven ha
  have hgiven' : ∀ x ∈ given ++ first a, LeadsInto t.registry.names x := by
    intro x hx
    rcases List.mem_append.1 hx with hx | hx
    · exact (hgiven x hx).mono hsub
    · exact hfirst x hx
  obtain ⟨hs', hsub', hlast⟩ := hf a t b s' ht hgiven' hb
  exact ⟨hs', List.Subset.trans hsub hsub', hlast⟩

theorem linked_throw {f : Fault} {schemas : α → List Schema} :
    Linked given (throw f) schemas := by
  intro s a s' _ _ hrun
  simp only [run_throw, reduceCtorEq] at hrun

/-- A step that leaves the registry alone and gives no schema. -/
theorem linked_of_registry_eq {m : Compiling α}
    (h : ∀ s a s', m.run s = .ok (a, s') → s'.registry = s.registry) :
    Linked given m fun _ => [] := by
  intro s a s' hs _ hrun
  rw [h s a s' hrun]
  exact ⟨hs, fun _ => id, by simp⟩

/-- Asking a registry is linked if it stays closed and the answer leads into it. -/
theorem linked_registering {m : Registering Schema}
    (h : ∀ r x r', r.Closed → m.run.run r = (.ok x, r') →
      r'.Closed ∧ r.names ⊆ r'.names ∧ LeadsInto r'.names x) :
    Linked given (registering m) fun x => [x] := by
  intro s x s' hs _ hrun
  obtain ⟨registry, hm, rfl⟩ := run_registering_ok.1 hrun
  obtain ⟨hclosed, hsub, hx⟩ := h s.registry x registry hs hm
  exact ⟨hclosed, hsub, by simpa using hx⟩

end Compiling

open Compiling

/-! ## leaves -/

/-- The schemas that qualifiers have added. -/
def Gathered.schemas (g : Gathered) : List Schema := requestSchemas g.parameters g.body

section Leaf

variable {c : Catalog} {given : List Schema}

/-- The schema of a parameter is linked. -/
theorem linked_parameterSchema {t : Ty} (ht : c.Closes t) (repeated : Bool) :
    Linked given (parameterSchema c t repeated) fun x => [x] := by
  refine linked_bind (linked_registering fun r x r' hr h => Registry.closed_paramSchemaOf hr ht h)
    fun x => linked_pure fun names hgiven y hy => ?_
  have hx : LeadsInto names x := hgiven x (by simp)
  rw [List.mem_singleton.1 hy]
  split
  · intro ref href
    simp only [arraySchema, Reference.all, Reference.allInMembers, List.nil_append,
      List.append_nil] at href
    exact hx ref (by simpa [Reference.all] using href)
  · exact hx

theorem linked_schema {q : Qualifier} (hq : ∀ t ∈ q.types, c.Closes t) :
    Linked given (q.schema c) fun x => [x] := by
  have hempty : ∀ x : Schema, Reference.all (.obj x) = [] →
      Linked given (pure x) fun x => [x] := by
    intro x hx
    refine linked_pure fun names _ y hy ref href => ?_
    rw [List.mem_singleton.1 hy, hx] at href
    simp at href
  cases q with
  | capture _ t _ | captureAll _ t _ | query _ t _ _ | queries _ t _ | header _ t _ _ =>
      exact linked_parameterSchema (hq t (by simp [Qualifier.types])) _
  | body t _ _ =>
      exact linked_registering fun r x r' hr h =>
        Registry.closed_schemaOf hr (hq t (by simp [Qualifier.types])) h
  | _ => exact hempty _ (by simp [Reference.all, Reference.allInMembers])

/-- Declaring a scheme does nothing to the registry. -/
theorem registry_eq_of_declareScheme {name : String} {scheme : SecurityScheme} {s s' : Collected}
    (h : (declareScheme name scheme).run s = .ok ((), s')) : s'.registry = s.registry := by
  obtain ⟨_, _, hget, h⟩ := run_bind_ok.1 h
  cases hget
  split at h
  · simp at h
  · cases h
    rfl

/-- Letting a qualifier in does nothing to the registry. -/
theorem registry_eq_of_letIn {title : String} {g : Gathered} {q : Qualifier} {s s' : Collected}
    (h : (letIn title g q).run s = .ok ((), s')) : s'.registry = s.registry := by
  cases q with
  | body t contentTypes d =>
      simp only [letIn] at h
      split at h
      · simp at h
      · obtain ⟨-, rfl⟩ := run_pure_ok.1 h
        rfl
  | alien a => simp only [letIn, run_throw, reduceCtorEq] at h
  | basic name realm => exact registry_eq_of_declareScheme h
  | bearer name format => exact registry_eq_of_declareScheme h
  | _ =>
      obtain ⟨-, rfl⟩ := run_pure_ok.1 h
      rfl

theorem linked_letIn (title : String) (g : Gathered) (q : Qualifier) :
    Linked given (letIn title g q) fun _ => [] :=
  linked_of_registry_eq fun _ _ _ => registry_eq_of_letIn

/-- Under each content type stands the one schema. -/
theorem mem_contentSchemas_contentUnder {contentTypes : List String} {schema x : Schema}
    (h : x ∈ contentSchemas (contentUnder contentTypes schema)) : x = schema := by
  obtain ⟨e, he, hx⟩ := List.mem_filterMap.1 h
  obtain ⟨ct, -, rfl⟩ := List.mem_map.1 (Table.mem_of_mem_ofList he)
  exact (Option.some.inj hx).symm

/-- A qualifier adds no schema but the one that is given. -/
theorem mem_schemas_adding {g : Gathered} {q : Qualifier} {schema x : Schema}
    (h : x ∈ (g.adding q schema).schemas) : x ∈ g.schemas ∨ x = schema := by
  rcases List.mem_append.1 h with h | h
  · obtain ⟨p, hp, hx⟩ := List.mem_filterMap.1 h
    rcases List.mem_append.1 hp with hp | hp
    · exact .inl (List.mem_append_left _ (List.mem_filterMap.2 ⟨p, hp, hx⟩))
    · right
      cases q <;> simp [Qualifier.parameter?] at hp <;> subst hp <;> exact (Option.some.inj hx).symm
  · obtain ⟨b, hb, hx⟩ := List.mem_flatMap.1 h
    rcases Option.or_eq_some_iff.1 (Option.mem_toList.1 hb) with hb | ⟨-, hb⟩
    · right
      cases q <;> simp [Qualifier.body?] at hb
      subst hb
      exact mem_contentSchemas_contentUnder hx
    · exact .inl (List.mem_append_right _ (List.mem_flatMap.2 ⟨b, by simpa using hb, hx⟩))

/-- Gathering a qualifier is linked. -/
theorem linked_gather {title : String} {g : Gathered} {q : Qualifier}
    (hq : ∀ t ∈ q.types, c.Closes t) (hg : g.schemas ⊆ given) :
    Linked given (gather c title g q) Gathered.schemas := by
  refine linked_bind (linked_letIn title g q) fun _ => linked_bind (linked_schema hq) fun schema =>
    linked_pure fun names hgiven x hx => ?_
  rcases mem_schemas_adding hx with hx | rfl
  · exact hgiven x (by simp [hg hx])
  · exact hgiven x (by simp)

theorem linked_gatherAll {title : String} {g : Gathered} {qs : List Qualifier}
    (hqs : ∀ q ∈ qs, ∀ t ∈ q.types, c.Closes t) (hg : g.schemas ⊆ given) :
    Linked given (qs.foldlM (gather c title) g) Gathered.schemas := by
  induction qs generalizing g given with
  | nil => exact linked_pure fun names hgiven x hx => hgiven x (hg hx)
  | cons q qs ih =>
      rw [List.foldlM_cons]
      refine linked_bind (linked_gather (hqs q List.mem_cons_self) hg) fun g' => ?_
      exact ih (fun q' hq' => hqs q' (List.mem_cons_of_mem _ hq')) (List.subset_append_right _ _)

theorem linked_contentOf {t : Ty} (ht : ∀ t' ∈ t.asContent, c.Closes t')
    (contentTypes : List String) :
    Linked given (contentOf c t contentTypes) contentSchemas := by
  have hsome : t.asContent = [t] → contentOf c t contentTypes =
      (do return contentUnder contentTypes (← registering (Registry.schemaOf c t))) := by
    intro h
    cases t <;> first | rfl | simp [Ty.asContent] at h
  by_cases h : t.asContent = [t]
  · rw [hsome h]
    refine linked_bind (linked_registering fun r x r' hr hrun =>
      Registry.closed_schemaOf hr (ht t (by simp [h])) hrun) fun schema =>
      linked_pure fun names hgiven x hx => ?_
    rw [mem_contentSchemas_contentUnder hx]
    exact hgiven schema (by simp)
  · have hnothing : t = .nothing := by
      cases t <;> first | rfl | exact absurd rfl h
    subst hnothing
    exact linked_pure fun names _ x hx => by simp [contentSchemas] at hx

theorem linked_headersOf {hs : List ResponseHeader} (hhs : ∀ h ∈ hs, c.Closes h.ty) :
    Linked given (headersOf c hs) fun t => t.filterMap fun e => e.2.schema := by
  induction hs generalizing given with
  | nil => exact linked_pure fun names _ x hx => by simp at hx
  | cons h hs ih =>
      refine linked_bind (linked_parameterSchema (hhs h List.mem_cons_self) false) fun schema =>
        linked_bind (ih fun h' hh' => hhs h' (List.mem_cons_of_mem _ hh')) fun rest =>
        linked_pure fun names hgiven x hx => ?_
      replace hx : x ∈ schema :: rest.filterMap fun e => e.2.schema := hx
      rcases List.mem_cons.1 hx with rfl | hx
      · exact hgiven x (by simp)
      · exact hgiven x (List.mem_append_right _ hx)

theorem linked_declaredResponses {rs : List Respond}
    (hrs : ∀ r ∈ rs, ∀ t ∈ r.returns.asContent, c.Closes t) :
    Linked given (declaredResponses c rs) fun es => es.flatMap fun e => e.2.schemas := by
  induction rs generalizing given with
  | nil => exact linked_pure fun names _ x hx => by simp at hx
  | cons r rs ih =>
      refine linked_bind (linked_contentOf (hrs r List.mem_cons_self) _) fun content =>
        linked_bind (ih fun r' hr' => hrs r' (List.mem_cons_of_mem _ hr')) fun rest =>
        linked_pure fun names hgiven x hx => ?_
      rw [List.flatMap_cons] at hx
      rcases List.mem_append.1 hx with hx | hx
      · have hcontent : x ∈ contentSchemas content := by simpa [Response.schemas] using hx
        exact hgiven x (by simp [hcontent])
      · exact hgiven x (List.mem_append_right _ hx)

/-- A response that is inferred has no schemas. -/
theorem mem_schemas_putNew {t : Table String Response} {status description : String} {x : Schema}
    (h : x ∈ (t.putNew status { description }).flatMap fun e => e.2.schemas) :
    x ∈ t.flatMap fun e => e.2.schemas := by
  rw [Table.putNew] at h
  split at h
  · exact h
  · simpa [Response.schemas, contentSchemas] using h

theorem linked_responsesOf {e : Endpoint} {g : Gathered} (he : ∀ t ∈ e.types, c.Closes t) :
    Linked given (responsesOf c e g) fun t => t.flatMap fun e => e.2.schemas := by
  have hreturns : ∀ t ∈ e.returns.asContent, c.Closes t :=
    fun t ht => he t (List.mem_append_left _ (List.mem_append_left _ ht))
  have hheaders : ∀ h ∈ e.headers, c.Closes h.ty := fun h hh =>
    he h.ty (List.mem_append_left _ (List.mem_append_right _ (List.mem_map_of_mem hh)))
  have hdeclared : ∀ r ∈ e.responses, ∀ t ∈ r.returns.asContent, c.Closes t :=
    fun r hr t ht => he t (List.mem_append_right _ (List.mem_flatMap.2 ⟨r, hr, ht⟩))
  refine linked_bind (linked_contentOf hreturns _) fun content =>
    linked_bind (linked_headersOf hheaders) fun headers =>
    linked_bind (linked_declaredResponses hdeclared) fun declared =>
    linked_pure fun names hgiven x hx => ?_
  rcases Table.mem_flatMap_putAll hx with hx | hx
  · have hown : x ∈ [(toString e.status, Response.mk "" content (Table.ofList headers))].flatMap
        fun e => e.2.schemas := by
      split at hx <;> split at hx
      · exact hx
      · exact mem_schemas_putNew hx
      · exact mem_schemas_putNew hx
      · exact mem_schemas_putNew (mem_schemas_putNew hx)
    rw [List.flatMap_singleton] at hown
    rcases List.mem_append.1 hown with hx | hx
    · exact hgiven x (by simp [hx])
    · obtain ⟨h, hh, hx⟩ := List.mem_filterMap.1 hx
      have hmem : x ∈ headers.filterMap fun e => e.2.schema :=
        List.mem_filterMap.2 ⟨h, Table.mem_of_mem_ofList hh, hx⟩
      exact hgiven x (List.mem_append_left _ (List.mem_append_right _ hmem))
  · exact hgiven x (List.mem_append_right _ hx)

/-- The operation of a route is linked. -/
theorem linked_leaf {r : Route} (hr : ∀ t ∈ r.types, c.Closes t) :
    Linked given (leaf c r) (·.operation.schemas) := by
  have hqualifiers : ∀ q ∈ r.qualifiers, ∀ t ∈ q.types, c.Closes t :=
    fun q hq t ht => hr t (List.mem_append_left _ (List.mem_flatMap.2 ⟨q, hq, ht⟩))
  have hendpoint : ∀ t ∈ r.endpoint.types, c.Closes t :=
    fun t ht => hr t (List.mem_append_right _ ht)
  have hoperation : Linked given (operationOf c r) Operation.schemas := by
    refine linked_bind (linked_gatherAll hqualifiers (by simp [Gathered.schemas, requestSchemas]))
      fun g => ?_
    split
    · exact linked_throw
    · refine linked_bind (linked_responsesOf hendpoint) fun responses =>
        linked_pure fun names hgiven x hx => ?_
      rcases List.mem_append.1 hx with hx | hx
      · exact hgiven x (List.mem_append_left _ (List.mem_append_right _ hx))
      · exact hgiven x (List.mem_append_right _ hx)
  exact linked_bind hoperation fun op => linked_pure fun names hgiven x hx =>
    hgiven x (List.mem_append_right _ hx)

/-- The operations of routes are linked. -/
theorem linked_leaves {rs : List Route} (hrs : ∀ r ∈ rs, ∀ t ∈ r.types, c.Closes t) :
    Linked given (leaves c rs) fun ls => ls.flatMap (·.operation.schemas) := by
  induction rs generalizing given with
  | nil => exact linked_pure fun names _ x hx => by simp at hx
  | cons r rs ih =>
      rw [leaves, List.mapM_cons]
      refine linked_bind (linked_leaf (hrs r List.mem_cons_self)) fun l =>
        linked_bind (ih fun r' hr' => hrs r' (List.mem_cons_of_mem _ hr')) fun ls =>
        linked_pure fun names hgiven x hx => ?_
      rw [List.flatMap_cons] at hx
      rcases List.mem_append.1 hx with hx | hx
      · exact hgiven x (List.mem_append_left _ (List.mem_append_right _ hx))
      · exact hgiven x (List.mem_append_right _ hx)

end Leaf

/-! ## merging -/

namespace Operation

@[simp] theorem schemas_muted (op : Operation) : op.muted.schemas = op.schemas := by
  have hresponse : ∀ status (r : Response), (mutedResponse status r).schemas = r.schemas := by
    intro status r
    rw [mutedResponse]
    split <;> rfl
  simp [muted, schemas, Table.mapValues, List.flatMap_map, hresponse]

@[simp] theorem schemas_respelled (names : List String) (op : Operation) :
    (op.respelled names).schemas = op.schemas := by
  have hparameters : ∀ (names : List String) (ps : List Parameter),
      (ApiTree.respelled names ps).filterMap (·.schema) = ps.filterMap (·.schema) := by
    intro names ps
    induction ps generalizing names with
    | nil => rfl
    | cons p ps ih =>
        by_cases h : p.location = "path"
        · rw [respelled_cons_of_path h, List.filterMap_cons, List.filterMap_cons, ih]
          rfl
        · rw [respelled_cons_of_ne h, List.filterMap_cons, List.filterMap_cons, ih]
  simp [respelled, schemas, requestSchemas, hparameters]

/-- The schemas of two contents together are those of either. -/
theorem mem_contentSchemas_putAll {t u : Table String MediaType} {x : Schema}
    (h : x ∈ contentSchemas (t.putAll u)) : x ∈ contentSchemas t ∨ x ∈ contentSchemas u := by
  obtain ⟨e, he, hx⟩ := List.mem_filterMap.1 h
  rcases Table.mem_of_mem_putAll he with he | he
  · exact .inl (List.mem_filterMap.2 ⟨e, he, hx⟩)
  · exact .inr (List.mem_filterMap.2 ⟨e, he, hx⟩)

/-- The schemas of two bodies together are those of either. -/
theorem mem_contentSchemas_unitedBodies {a b : Option RequestBody} {body : RequestBody}
    {x : Schema} (h : unitedBodies a b = some body) (hx : x ∈ contentSchemas body.content) :
    (∃ y, a = some y ∧ x ∈ contentSchemas y.content) ∨
      ∃ z, b = some z ∧ x ∈ contentSchemas z.content := by
  cases a with
  | none =>
      simp only [unitedBodies, Option.none_or] at h
      exact .inr ⟨body, h, hx⟩
  | some y =>
      cases b with
      | none =>
          simp only [unitedBodies, Option.or_none] at h
          exact .inl ⟨body, h, hx⟩
      | some z =>
          simp only [unitedBodies, Option.some.injEq] at h
          subst h
          rcases mem_contentSchemas_putAll hx with hx | hx
          · exact .inl ⟨y, rfl, hx⟩
          · exact .inr ⟨z, rfl, hx⟩

/-- The schemas of a body are schemas of the operation. -/
theorem mem_schemas_of_body {op : Operation} {body : RequestBody} {x : Schema}
    (h : op.requestBody = some body) (hx : x ∈ contentSchemas body.content) : x ∈ op.schemas := by
  refine List.mem_append_left _ (List.mem_append_right _ ?_)
  rw [h]
  simpa using hx

/-- What is merged has no schema that was not there before. -/
theorem mem_schemas_united {a b : Operation} {x : Schema} (h : x ∈ (a.united b).schemas) :
    x ∈ a.schemas ∨ x ∈ b.schemas := by
  rcases List.mem_append.1 h with h | h
  · rcases List.mem_append.1 h with h | h
    · exact .inl (List.mem_append_left _ (List.mem_append_left _ h))
    · obtain ⟨body, hunited, hx⟩ := List.mem_flatMap.1 h
      rcases mem_contentSchemas_unitedBodies (Option.mem_toList.1 hunited) hx with
        ⟨y, hy, hx⟩ | ⟨z, hz, hx⟩
      · exact .inl (mem_schemas_of_body hy hx)
      · exact .inr (mem_schemas_of_body hz hx)
  · rcases Table.mem_flatMap_putAll h with h | h
    · exact .inl (List.mem_append_right _ h)
    · exact .inr (List.mem_append_right _ h)

/-- A part of operations that uniting two of them does not add to comes from one of them. -/
theorem mem_unitedAll {α : Type} {part : Operation → List α} (hnil : part {} = [])
    (hunited : ∀ a b x, x ∈ part (a.united b) → x ∈ part a ∨ x ∈ part b) {ops : List Operation}
    {x : α} (h : x ∈ part (unitedAll ops)) : ∃ op ∈ ops, x ∈ part op := by
  induction ops using List.reverseRecOn with
  | nil =>
      rw [unitedAll, hnil] at h
      simp at h
  | append_singleton ops op ih =>
      by_cases hne : ops = []
      · subst hne
        exact ⟨op, by simp, h⟩
      · rw [unitedAll_append_singleton hne] at h
        rcases hunited _ _ x h with h | h
        · obtain ⟨op', hop', hx⟩ := ih h
          exact ⟨op', List.mem_append_left _ hop', hx⟩
        · exact ⟨op, by simp, h⟩

end Operation

/-- The operations of a path item are those that its methods have. -/
theorem PathItem.mem_operations {item : PathItem} {e : Method × Operation}
    (h : e ∈ item.operations) : item.operation e.1 = some e.2 := by
  obtain ⟨m, -, hm⟩ := List.mem_filterMap.1 h
  obtain ⟨op, hop, rfl⟩ := Option.map_eq_some_iff.1 hm
  exact hop

/-- A part of operations that merging does not add to comes, in the paths of a document,
from the leaves. -/
theorem Partial.Summarizes.mem_paths {α : Type} {part : Operation → List α} (hnil : part {} = [])
    (hmuted : ∀ op : Operation, part op.muted = part op)
    (hrespelled : ∀ names (op : Operation), part (op.respelled names) = part op)
    (hunited : ∀ a b x, x ∈ part (a.united b) → x ∈ part a ∨ x ∈ part b)
    {p : Partial} {ls : List Leaf} (hp : p.Summarizes ls) {x : α}
    (h : x ∈ p.paths.flatMap fun e => e.2.operations.flatMap fun e => part e.2) :
    x ∈ ls.flatMap fun l => part l.operation := by
  obtain ⟨⟨path, item⟩, hitem, hx⟩ := List.mem_flatMap.1 h
  obtain ⟨⟨m, op⟩, hop, hx⟩ := List.mem_flatMap.1 hx
  have hfind := Table.find?_of_mem (Table.nodup_keys_ofList _) hitem
  obtain ⟨k, e, he, -, hops⟩ := exists_entry_of_paths hp hfind
  have hfound := (hops m).symm.trans (PathItem.mem_operations hop)
  rw [Partial.operationAt, he, Option.bind_some] at hfound
  have htogether := (hp.values k e he).operations.values m op hfound
  rw [← hmuted, htogether, together, hmuted, hrespelled] at hx
  obtain ⟨op', hop', hx⟩ := Operation.mem_unitedAll hnil hunited hx
  obtain ⟨l, hl, rfl⟩ := List.mem_map.1 hop'
  have hmem := List.mem_of_mem_filter (List.mem_of_mem_filter hl)
  exact List.mem_flatMap.2 ⟨l, hmem, hx⟩

/-- The schemas of a fold are those of its leaves. -/
theorem Partial.Summarizes.mem_schemas_paths {p : Partial} {ls : List Leaf} (hp : p.Summarizes ls)
    {x : Schema} (h : x ∈ p.paths.flatMap fun e => e.2.operations.flatMap fun e => e.2.schemas) :
    x ∈ ls.flatMap (·.operation.schemas) :=
  hp.mem_paths rfl Operation.schemas_muted Operation.schemas_respelled
    (fun _ _ _ => Operation.mem_schemas_united) h

/-- Every reference in a document, at any depth of a parameter, a body, a response, a
header of a response or a component, is to a component of the document. -/
theorem compile_leadsInto (c : Catalog) (t : Tree) (info : Info) (servers : List Server)
    (compiled : Compiled) (htypes : ∀ ty ∈ t.types, c.Closes ty)
    (h : compile c t info servers = .ok compiled) :
    ∀ x ∈ compiled.document.schemas, LeadsInto compiled.document.components.schemas.keys x := by
  obtain ⟨⟨⟨p, events⟩, s⟩, hfold, h⟩ := bind_eq_ok_iff.1 h
  obtain rfl := pure_eq_ok_iff.1 h
  obtain ⟨rs, ls, hrs, hls, -, hp⟩ := Tree.fold_summarizes hfold
  have htypes' : ∀ r ∈ rs, ∀ ty ∈ r.types, c.Closes ty :=
    fun r hr ty hty => htypes ty (by simpa using Tree.mem_types_of_routes hrs hr ty hty)
  have hlinked : Linked [] (leaves c rs) fun ls => ls.flatMap (·.operation.schemas) :=
    linked_leaves htypes'
  obtain ⟨hclosed, -, hleads⟩ := hlinked {} ls s Registry.closed_empty (by simp) hls
  intro x hx
  rcases List.mem_append.1 hx with hx | hx
  · exact hleads x (hp.mem_schemas_paths hx)
  · obtain ⟨e, he, rfl⟩ := List.mem_map.1 hx
    exact hclosed.schemas e he

/-- A node of a linked list, and a node of a tree that holds a list. -/
def nodes : Catalog :=
  [{ name := "Node", qualname := "Node"
     form := .model
      [{ name := "value", ty := .scalar .int },
        { name := "next", ty := .union .bars [.cls 0, .scalar .null], default := some .null }]
      .ignored none [] },
    { name := "Branch", qualname := "Branch"
      form := .model
        [{ name := "head", ty := .cls 0 }, { name := "branches", ty := .each .list (.cls 1) }]
        .ignored none [] }]

/-- Lists and trees in the query, in a body and in a response. -/
def nodesTree : Tree :=
  .seq (.query "filter" (.cls 0) true none) (.alt (.leaf { method := .get, returns := .cls 1 })
    (.seq (.body (.each .list (.cls 0)) [jsonContent] none) (.leaf { method := .post })))

/-- Recursive types leave nothing dangling. -/
theorem nodesTree_leadsInto :
    ∃ compiled, compile nodes nodesTree {} [] = .ok compiled ∧
      ∀ x ∈ compiled.document.schemas,
        LeadsInto compiled.document.components.schemas.keys x := by
  have hok : (compile nodes nodesTree {} []).toOption.isSome = true := by decide +kernel
  obtain ⟨compiled, hcompiled⟩ := Option.isSome_iff_exists.1 hok
  have h := toOption_eq_some_iff.1 hcompiled
  exact ⟨compiled, h, compile_leadsInto nodes nodesTree {} [] compiled (by decide +kernel) h⟩

end ApiTree
