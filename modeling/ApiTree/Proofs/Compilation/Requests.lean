import ApiTree.Conformance.Report
import ApiTree.Proofs.Compilation.Links

/-!
# ApiTree.Proofs.Compilation.Requests

What compiling asks a registry for.  A route asks for the schemas of its parameters, its
bodies and its answers in a fixed order (`Route.requests`), and beside the answers
(`Registry.answers`) compiling it does nothing to the registry.  `Compiling.Asks` states this
of a step, with what the answers have to do with its result; steps put together ask for
what each asks for (`Compiling.asks_bind`).

* `asks_leaves` — the contents of bodies and answers have the schemas that were given for
  the types of bodies.
-/

namespace ApiTree

/-! ## requests -/

/-- What a registry is asked for: the schema of a body, or that of a parameter. -/
inductive Request where
  | body (t : Ty)
  | parameter (t : Ty)

/-- The type that a request is about. -/
def Request.ty : Request → Ty
  | .body t | .parameter t => t

/-- The requests of a qualifier. -/
def Qualifier.requests : Qualifier → List Request
  | .capture _ t _ | .captureAll _ t _ | .query _ t _ _ | .queries _ t _ | .header _ t _ _ =>
    [.parameter t]
  | .body t _ _ => [.body t]
  | _ => []

/-- The requests of an endpoint. -/
def Endpoint.requests (e : Endpoint) : List Request :=
  e.returns.asContent.map .body ++ (e.headers.map fun h => .parameter h.ty) ++
    e.responses.flatMap fun r => r.returns.asContent.map .body

/-- The requests of a route. -/
def Route.requests (r : Route) : List Request :=
  r.qualifiers.flatMap Qualifier.requests ++ r.endpoint.requests

namespace Registry

/-- Answers a request, where `owners` are the named types that were found in its type. -/
def answerAmong (c : Catalog) (owners : Table String (List String)) : Request → Registering Schema
  | .body t => bodySchema c owners t
  | .parameter t => parameterSchema c owners t

/-- Answers a request. -/
def answer (c : Catalog) : Request → Registering Schema
  | .body t => schemaOf c t
  | .parameter t => paramSchemaOf c t

/-- A request is answered with all that is found in its type. -/
theorem answer_eq (c : Catalog) (q : Request) :
    answer c q = answerAmong c (c.namedTypes q.ty) q := by
  cases q <;> rfl

/-- Answers requests, one after the other; each answer is noted with its request. -/
def answers (c : Catalog) : List Request → Registering (List (Request × Schema))
  | [] => return []
  | q :: qs => do
    let schema ← answer c q
    let rest ← answers c qs
    return (q, schema) :: rest

/-- Requests are answered one after the other. -/
theorem run_answers_cons_ok {c : Catalog} {q : Request} {qs : List Request}
    {es : List (Request × Schema)} {r r' : Registry}
    (h : (answers c (q :: qs)).run.run r = (.ok es, r')) :
    ∃ x rest r₁, (answer c q).run.run r = (.ok x, r₁) ∧
      (answers c qs).run.run r₁ = (.ok rest, r') ∧ es = (q, x) :: rest := by
  obtain ⟨x, r₁, hx, h⟩ := Registering.run_bind_ok h
  obtain ⟨rest, r₂, hrest, h⟩ := Registering.run_bind_ok h
  obtain ⟨rfl, rfl⟩ := Registering.run_pure_ok h
  exact ⟨x, rest, r₁, hx, hrest, rfl⟩

/-- The answers to more requests come after those to the first. -/
theorem run_answers_append {c : Catalog} {qs qs' : List Request}
    {es es' : List (Request × Schema)} {r r₁ r' : Registry}
    (h : (answers c qs).run.run r = (.ok es, r₁))
    (h' : (answers c qs').run.run r₁ = (.ok es', r')) :
    (answers c (qs ++ qs')).run.run r = (.ok (es ++ es'), r') := by
  induction qs generalizing r es with
  | nil =>
      obtain ⟨rfl, rfl⟩ := Registering.run_pure_ok h
      exact h'
  | cons q qs ih =>
      obtain ⟨x, rest, r₂, hx, hrest, rfl⟩ := run_answers_cons_ok h
      rw [List.cons_append, answers, Registering.run_bind_of_ok hx,
        Registering.run_bind_of_ok (ih hrest)]
      rfl

end Registry

/-- The answers to requests for bodies. -/
def givenBodies (es : List (Request × Schema)) : List Schema :=
  es.filterMap fun
    | (.body _, x) => some x
    | (.parameter _, _) => none

theorem givenBodies_append (es es' : List (Request × Schema)) :
    givenBodies (es ++ es') = givenBodies es ++ givenBodies es' := List.filterMap_append

/-- The schemas of the content of a body. -/
def bodySchemas (body : Option RequestBody) : List Schema :=
  body.toList.flatMap fun b => contentSchemas b.content

/-- The schemas of one of two bodies are those of either. -/
theorem bodySchemas_or {a b : Option RequestBody} {x : Schema} (h : x ∈ bodySchemas (a.or b)) :
    x ∈ bodySchemas a ∨ x ∈ bodySchemas b := by
  cases a with
  | none => exact .inr h
  | some body => exact .inl h

/-! ## steps that ask -/

namespace Compiling

variable {α β : Type} {c : Catalog}

/-- A step that asks a registry for `qs` and does nothing else to it; its result and the
answers are as `post` says. -/
def Asks (c : Catalog) (m : Compiling α) (qs : List Request)
    (post : α → List (Request × Schema) → Prop) : Prop :=
  ∀ s a s', m.run s = .ok (a, s') →
    ∃ es, (Registry.answers c qs).run.run s.registry = (.ok es, s'.registry) ∧ post a es

theorem asks_pure {a : α} {post : α → List (Request × Schema) → Prop} (h : post a []) :
    Asks c (pure a) [] post := by
  intro s b s' hrun
  obtain ⟨rfl, rfl⟩ := run_pure_ok.1 hrun
  exact ⟨[], rfl, h⟩

/-- Two steps ask for what the first asks for, and then for what the second does. -/
theorem asks_bind {m : Compiling α} {f : α → Compiling β} {qs qs' : List Request}
    {F : α → List (Request × Schema) → Prop} {G : α → β → List (Request × Schema) → Prop}
    {H : β → List (Request × Schema) → Prop} (hm : Asks c m qs F)
    (hf : ∀ a, Asks c (f a) qs' (G a))
    (h : ∀ a b es es', F a es → G a b es' → H b (es ++ es')) :
    Asks c (m >>= f) (qs ++ qs') H := by
  intro s b s' hrun
  obtain ⟨a, t, ha, hb⟩ := run_bind_ok.1 hrun
  obtain ⟨es, hes, hF⟩ := hm s a t ha
  obtain ⟨es', hes', hG⟩ := hf a t b s' hb
  exact ⟨es ++ es', Registry.run_answers_append hes hes', h a b es es' hF hG⟩

/-- A step whose result is put into another form. -/
theorem asks_map {m : Compiling α} {f : α → β} {qs : List Request}
    {F : α → List (Request × Schema) → Prop} {H : β → List (Request × Schema) → Prop}
    (hm : Asks c m qs F) (h : ∀ a es, F a es → H (f a) es) :
    Asks c (do return f (← m)) qs H := by
  intro s b s' hrun
  obtain ⟨a, t, ha, hb⟩ := run_bind_ok.1 hrun
  obtain ⟨rfl, rfl⟩ := run_pure_ok.1 hb
  obtain ⟨es, hes, hF⟩ := hm s a t ha
  exact ⟨es, hes, h a es hF⟩

theorem asks_throw {f : Fault} {qs : List Request} {post : α → List (Request × Schema) → Prop} :
    Asks c (throw f) qs post := by
  intro s a s' hrun
  simp only [run_throw, reduceCtorEq] at hrun

/-- Answering a request asks for it. -/
theorem asks_registering (q : Request) :
    Asks c (registering (Registry.answer c q)) [q] fun x es => es = [(q, x)] := by
  intro s x s' hrun
  obtain ⟨r, hx, rfl⟩ := run_registering_ok.1 hrun
  refine ⟨[(q, x)], ?_, rfl⟩
  rw [Registry.answers, Registering.run_bind_of_ok hx]
  rfl

end Compiling

open Compiling

section Leaf

variable {c : Catalog}

theorem asks_parameterSchema (t : Ty) (repeated : Bool) :
    Asks c (parameterSchema c t repeated) [.parameter t] fun _ _ => True :=
  asks_map (asks_registering (.parameter t)) fun _ _ _ => trivial

/-- A qualifier asks for its requests, and a body has the schema that was given for it. -/
theorem asks_schema (q : Qualifier) :
    Asks c (q.schema c) q.requests fun x es => bodySchemas (q.body? x) ⊆ givenBodies es := by
  cases q with
  | capture _ t _ | captureAll _ t _ | query _ t _ _ | queries _ t _ | header _ t _ _ =>
      intro s x s' hrun
      obtain ⟨es, hes, -⟩ := asks_parameterSchema t _ s x s' hrun
      exact ⟨es, hes, List.nil_subset _⟩
  | body t contentTypes d =>
      intro s x s' hrun
      obtain ⟨es, hes, rfl⟩ := asks_registering (.body t) s x s' hrun
      refine ⟨_, hes, fun y hy => ?_⟩
      obtain ⟨b, hb, hy⟩ := List.mem_flatMap.1 hy
      obtain rfl := Option.some.inj (Option.mem_toList.1 hb)
      rw [mem_contentSchemas_contentUnder hy]
      exact List.mem_singleton.2 rfl
  | _ => exact asks_pure (List.nil_subset _)

/-- Gathering a qualifier asks for its requests. -/
theorem asks_gather (title : String) (g : Gathered) (q : Qualifier) :
    Asks c (gather c title g q) q.requests fun g' es =>
      bodySchemas g'.body ⊆ bodySchemas g.body ++ givenBodies es := by
  intro s g' s' hrun
  obtain ⟨t, schema, hlet, hschema, rfl⟩ := gather_ok hrun
  obtain ⟨es, hes, hsub⟩ := asks_schema q t schema s' hschema
  refine ⟨es, by rwa [← registry_eq_of_letIn hlet], fun x hx => ?_⟩
  rcases bodySchemas_or hx with hx | hx
  · exact List.mem_append_right _ (hsub hx)
  · exact List.mem_append_left _ hx

theorem asks_gatherAll (title : String) (g : Gathered) (qs : List Qualifier) :
    Asks c (qs.foldlM (gather c title) g) (qs.flatMap Qualifier.requests) fun g' es =>
      bodySchemas g'.body ⊆ bodySchemas g.body ++ givenBodies es := by
  induction qs generalizing g with
  | nil => exact asks_pure (List.subset_append_left _ _)
  | cons q qs ih =>
      rw [List.foldlM_cons, List.flatMap_cons]
      refine asks_bind (asks_gather title g q) ih fun g₁ g' es es' h h' x hx => ?_
      rw [givenBodies_append, ← List.append_assoc]
      rcases List.mem_append.1 (h' hx) with hx | hx
      · exact List.mem_append_left _ (h hx)
      · exact List.mem_append_right _ hx

/-- The responses of an endpoint that are not declared one by one. -/
def Endpoint.ownResponses (e : Endpoint) (g : Gathered) (content : Table String MediaType)
    (headers : Table String HeaderObject) : Table String Response :=
  let responses : Table String Response :=
    [(toString e.status, { description := "", content, headers := Table.ofList headers })]
  let responses :=
    if g.invalid.isEmpty then responses
    else responses.putNew "400" { description := "Invalid " ++ orList g.invalid }
  if g.notFound.isEmpty then responses
  else responses.putNew "404" { description := orList g.notFound ++ " not found" }

/-- The responses of an endpoint are its own, and the declared ones put over them. -/
theorem responsesOf_eq (e : Endpoint) (g : Gathered) : responsesOf c e g = (do
    let content ← contentOf c e.returns e.contentTypes
    let headers ← headersOf c e.headers
    let declared ← declaredResponses c e.responses
    return (e.ownResponses g content headers).putAll declared) := rfl

end Leaf
end ApiTree
