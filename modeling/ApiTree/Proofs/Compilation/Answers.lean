import ApiTree.Proofs.Compilation.Passage
import ApiTree.Proofs.Schema.Entries

/-!
# ApiTree.Proofs.Compilation.Answers

What a route answers with.  For each status there is the response that its endpoint declares,
one by one or as its own, or else the one that is inferred from the qualifiers above it, or
none (`Route.Answers`).

* `asks_operationOf_made` — what a route compiles to has responses that are made one after the
  other, inferred ones first and declared ones last (`Route.Makes`);
* `asks_answers` — so it has the responses that the route answers with;
* `Registry.gives_of_answers` — and their contents have the schemas that the registry gives for
  the types from then on.
-/

namespace ApiTree

/-! ## responses of a route -/

/-- The status of a declared response as the key of the response. -/
def Respond.statusKey (d : Respond) : String := toString d.status

/-- The status of an endpoint as the key of its response. -/
def Endpoint.statusKey (e : Endpoint) : String := toString e.status

/-- The response that is declared one by one for a status; the last declaration counts. -/
def Endpoint.declared? (e : Endpoint) (status : String) : Option Respond :=
  e.responses.reverse.find? (·.statusKey = status)

/-- An endpoint itself has a response for a status. -/
def Endpoint.declares (e : Endpoint) (status : String) : Bool :=
  e.statusKey = status || (e.declared? status).isSome

/-- The text of the response for a status that is inferred from what a request can get wrong
and from what may not be found. -/
def inferredText (invalid missing : List String) (status : String) : Option String :=
  if status = "400" then
    if invalid.isEmpty then none else some ("Invalid " ++ orList invalid)
  else if status = "404" then
    if missing.isEmpty then none else some (orList missing ++ " not found")
  else none

/-- The text of the response for a status that is inferred from the qualifiers of a route. -/
def Route.inferred? (r : Route) (status : String) : Option String :=
  inferredText (r.qualifiers.filterMap Qualifier.invalid?)
    (r.qualifiers.filterMap Qualifier.missing?) status

/-- The content of a type under some content types, where `given` tells the schemas of types. -/
inductive ContentOf (given : Ty → Schema → Prop) (t : Ty) (contentTypes : List String) :
    Table String MediaType → Prop
  | nothing (h : t = .nothing) : ContentOf given t contentTypes []
  | under (x : Schema) (ht : t ≠ .nothing) (h : given t x) :
    ContentOf given t contentTypes (contentUnder contentTypes x)

/-- What a route answers with for a status. -/
inductive Route.Answers (given : Ty → Schema → Prop) (r : Route) (status : String) :
    Option Response → Prop
  /-- A response that is declared one by one. -/
  | declared (d : Respond) (content : Table String MediaType)
    (hd : r.endpoint.declared? status = some d)
    (h : ContentOf given d.returns d.contentTypes content) :
    Answers given r status (some { description := d.description, content })
  /-- The response for the status of the endpoint. -/
  | own (content : Table String MediaType) (headers : Table String HeaderObject)
    (hd : r.endpoint.declared? status = none) (hs : r.endpoint.statusKey = status)
    (h : ContentOf given r.endpoint.returns r.endpoint.contentTypes content) :
    Answers given r status (some { description := "", content, headers })
  /-- A response that is inferred. -/
  | inferred (text : String) (hd : r.endpoint.declares status = false)
    (h : r.inferred? status = some text) :
    Answers given r status (some { description := text })
  /-- No response. -/
  | silent (hd : r.endpoint.declares status = false) (h : r.inferred? status = none) :
    Answers given r status none

section Mono

variable {given given' : Ty → Schema → Prop}

theorem ContentOf.mono (hgiven : ∀ t x, given t x → given' t x) {t : Ty}
    {contentTypes : List String} {content : Table String MediaType}
    (h : ContentOf given t contentTypes content) : ContentOf given' t contentTypes content := by
  cases h with
  | nothing h => exact .nothing h
  | under x ht h => exact .under x ht (hgiven t x h)

theorem Route.Answers.mono (hgiven : ∀ t x, given t x → given' t x) {r : Route} {status : String}
    {answer : Option Response} (h : r.Answers given status answer) :
    r.Answers given' status answer := by
  cases h with
  | declared d content hd h => exact .declared d content hd (h.mono hgiven)
  | own content headers hd hs h => exact .own content headers hd hs (h.mono hgiven)
  | inferred text hd h => exact .inferred text hd h
  | silent hd h => exact .silent hd h

end Mono

/-- A route has a response for a status: one that its endpoint declares, or one that is inferred. -/
def Route.speaks (r : Route) (status : String) : Bool :=
  r.endpoint.declares status || (r.inferred? status).isSome

/-- A route has an answer for a status exactly if it speaks of it. -/
theorem Route.Answers.isSome_eq {given : Ty → Schema → Prop} {r : Route} {status : String}
    {answer : Option Response} (h : r.Answers given status answer) :
    answer.isSome = r.speaks status := by
  cases h with
  | declared d content hd h => simp [speaks, Endpoint.declares, hd]
  | own content headers hd hs h => simp [speaks, Endpoint.declares, hs]
  | inferred text hd h => simp [speaks, h]
  | silent hd h => simp [speaks, hd, h]

/-- What a route answers with for a status that is declared one by one. -/
theorem Route.Answers.exists_content {given : Ty → Schema → Prop} {r : Route} {status : String}
    {answer : Option Response} {d : Respond} (h : r.Answers given status answer)
    (hd : r.endpoint.declared? status = some d) :
    ∃ content, ContentOf given d.returns d.contentTypes content ∧
      answer = some { description := d.description, content } := by
  have hdeclares : r.endpoint.declares status = true := by simp [Endpoint.declares, hd]
  cases h with
  | declared d' content hd' h =>
      obtain rfl := Option.some.inj (hd.symm.trans hd')
      exact ⟨content, h, rfl⟩
  | own content headers hd' => simp [hd] at hd'
  | inferred text hd' => simp [hdeclares] at hd'
  | silent hd' => simp [hdeclares] at hd'

/-! ## looking up responses -/

/-- What an endpoint declares one by one, as entries of a table. -/
def DeclaredAs (given : Ty → Schema → Prop) (d : Respond) (e : String × Response) : Prop :=
  ∃ content, ContentOf given d.returns d.contentTypes content ∧
    e = (d.statusKey, { description := d.description, content })

theorem DeclaredAs.mono {given given' : Ty → Schema → Prop} (hgiven : ∀ t x, given t x → given' t x)
    {d : Respond} {e : String × Response} (h : DeclaredAs given d e) : DeclaredAs given' d e := by
  obtain ⟨content, hcontent, rfl⟩ := h
  exact ⟨content, hcontent.mono hgiven, rfl⟩

/-- The first declaration of a status has the response that is found for it. -/
theorem find?_of_declaredAs {given : Ty → Schema → Prop} {ds : List Respond}
    {es : List (String × Response)} (h : List.Forall₂ (DeclaredAs given) ds es) (status : String) :
    (ds.find? (·.statusKey = status) = none ∧ Table.find? es status = none) ∨
      ∃ d content, ds.find? (·.statusKey = status) = some d ∧
        ContentOf given d.returns d.contentTypes content ∧
        Table.find? es status = some { description := d.description, content } := by
  induction h with
  | nil => exact .inl ⟨rfl, rfl⟩
  | @cons d e ds es hd _ ih =>
      obtain ⟨content, hcontent, rfl⟩ := hd
      rw [Table.find?_cons]
      by_cases hs : d.statusKey = status
      · exact .inr ⟨d, content, by simp [hs], hcontent, by simp [hs]⟩
      · rwa [List.find?_cons_of_neg (by simpa using hs), if_neg (by simpa using Ne.symm hs)]

/-- A response that is suggested by names is found where there is no other one. -/
theorem find?_suggested (t : Table String Response) (names : List String)
    (key text status : String) :
    (if names.isEmpty then t else t.putNew key { description := text }).find? status =
      (t.find? status).or (if status = key ∧ ¬ names.isEmpty then some { description := text }
        else none) := by
  by_cases hn : names.isEmpty
  · simp [hn]
  · by_cases hs : status = key <;> simp [hn, hs, Table.find?_putNew]

/-- What is not declared one by one is the response of the endpoint's own status, or inferred. -/
theorem find?_ownResponses (e : Endpoint) (g : Gathered) (content : Table String MediaType)
    (headers : Table String HeaderObject) (status : String) :
    (e.ownResponses g content headers).find? status =
      if e.statusKey = status then
        some { description := "", content, headers := Table.ofList headers }
      else (inferredText g.invalid g.notFound status).map fun text => { description := text } := by
  have hown : ∀ own : Response, Table.find? [(toString e.status, own)] status =
      if e.statusKey = status then some own else none := by
    intro own
    rw [Table.find?_cons, Table.find?_nil]
    exact if_congr (beq_iff_eq.trans eq_comm) rfl rfl
  rw [Endpoint.ownResponses, find?_suggested, find?_suggested, hown]
  by_cases hk : e.statusKey = status
  · simp [hk]
  · rw [if_neg hk, if_neg hk, inferredText]
    by_cases h400 : status = "400"
    · by_cases hi : g.invalid.isEmpty <;> simp [h400, hi]
    · by_cases h404 : status = "404" <;> by_cases hm : g.notFound.isEmpty <;>
        simp [h400, h404, hm]

/-! ## compiling a route -/

namespace Gathered

/-- Each qualifier adds what it may find invalid. -/
theorem invalid_reading (g : Gathered) (es : List (Qualifier × Schema)) :
    (g.reading es).invalid = g.invalid ++ (es.map Prod.fst).filterMap Qualifier.invalid? := by
  induction es generalizing g with
  | nil => simp [reading]
  | cons e es ih =>
      rw [reading, List.foldl_cons, ← reading, ih, adding]
      cases h : e.1.invalid? <;> simp [h]

/-- Each qualifier adds what it may find missing. -/
theorem notFound_reading (g : Gathered) (es : List (Qualifier × Schema)) :
    (g.reading es).notFound = g.notFound ++ (es.map Prod.fst).filterMap Qualifier.missing? := by
  induction es generalizing g with
  | nil => simp [reading]
  | cons e es ih =>
      rw [reading, List.foldl_cons, ← reading, ih, adding]
      cases h : e.1.missing? <;> simp [h]

end Gathered

/-- The schemas that answers to requests for bodies give. -/
def givenBy (es : List (Request × Schema)) (t : Ty) (x : Schema) : Prop := (.body t, x) ∈ es

/-- A header as an endpoint declares it, with a schema that was given for its type. -/
def HeaderOf (es : List (Request × Schema)) (h : ResponseHeader) (e : String × HeaderObject) :
    Prop :=
  ∃ x, (.parameter h.ty, x) ∈ es ∧ e = (h.name, { description := h.description, schema := some x })

/-- How the responses of a route are made with the answers to its requests: what is declared one
by one is put over the response of the endpoint's own status and over what is inferred. -/
inductive Route.Makes (es : List (Request × Schema)) (r : Route) : Table String Response → Prop
  | intro {g : Gathered} {content : Table String MediaType} {headers : Table String HeaderObject}
    {declared : List (String × Response)}
    (invalid : g.invalid = r.qualifiers.filterMap Qualifier.invalid?)
    (missing : g.notFound = r.qualifiers.filterMap Qualifier.missing?)
    (content_of : ContentOf (givenBy es) r.endpoint.returns r.endpoint.contentTypes content)
    (header_of : List.Forall₂ (HeaderOf es) r.endpoint.headers headers)
    (declared_as : List.Forall₂ (DeclaredAs (givenBy es)) r.endpoint.responses declared) :
    Makes es r ((r.endpoint.ownResponses g content headers).putAll declared)

section Mono

variable {es es' : List (Request × Schema)}

theorem givenBy_mono (h : es ⊆ es') : ∀ t x, givenBy es t x → givenBy es' t x :=
  fun _ _ hx => h hx

theorem HeaderOf.mono (hsub : es ⊆ es') {h : ResponseHeader} {e : String × HeaderObject} :
    HeaderOf es h e → HeaderOf es' h e := fun ⟨x, hx, he⟩ => ⟨x, hsub hx, he⟩

theorem Route.Makes.mono (hsub : es ⊆ es') {r : Route} {responses : Table String Response}
    (h : r.Makes es responses) : r.Makes es' responses := by
  obtain ⟨hinvalid, hmissing, hcontent, hheaders, hdeclared⟩ := h
  exact .intro hinvalid hmissing (hcontent.mono (givenBy_mono hsub))
    (hheaders.imp fun _ _ h => h.mono hsub) (hdeclared.imp fun _ _ h => h.mono (givenBy_mono hsub))

end Mono

/-- For a status the last declaration is found, or else the response of the endpoint's own status,
or else the inferred one. -/
theorem Route.Makes.find?_cases {es : List (Request × Schema)} {r : Route}
    {responses : Table String Response} (h : r.Makes es responses) (status : String) :
    (∃ d content, r.endpoint.declared? status = some d ∧
      ContentOf (givenBy es) d.returns d.contentTypes content ∧
      responses.find? status = some { description := d.description, content }) ∨
    (∃ content headers, r.endpoint.declared? status = none ∧ r.endpoint.statusKey = status ∧
      ContentOf (givenBy es) r.endpoint.returns r.endpoint.contentTypes content ∧
      List.Forall₂ (HeaderOf es) r.endpoint.headers headers ∧
      responses.find? status =
        some { description := "", content, headers := Table.ofList headers }) ∨
    (r.endpoint.declares status = false ∧
      responses.find? status = (r.inferred? status).map fun text => { description := text }) := by
  obtain ⟨hinvalid, hmissing, hcontent, hheaders, hdeclared⟩ := h
  rw [Table.find?_putAll_eq, find?_ownResponses, hinvalid, hmissing]
  rcases find?_of_declaredAs (List.forall₂_reverse_iff.2 hdeclared) status with
    ⟨hd, hfind⟩ | ⟨d, content, hd, hcontent, hfind⟩
  · have hnone : r.endpoint.declared? status = none := hd
    rw [hfind, Option.none_or]
    by_cases hs : r.endpoint.statusKey = status
    · exact .inr (.inl ⟨_, _, hd, hs, hcontent, hheaders, if_pos hs⟩)
    · exact .inr (.inr ⟨by simp [Endpoint.declares, hs, hnone], if_neg hs⟩)
  · rw [hfind, Option.some_or]
    exact .inl ⟨d, content, hd, hcontent, rfl⟩

/-- Responses that are made answer as the route does. -/
theorem Route.Makes.answers {es : List (Request × Schema)} {r : Route}
    {responses : Table String Response} (h : r.Makes es responses) (status : String) :
    r.Answers (givenBy es) status (responses.find? status) := by
  rcases h.find?_cases status with ⟨d, content, hd, hcontent, hfind⟩ |
    ⟨content, headers, hd, hs, hcontent, -, hfind⟩ | ⟨hd, hfind⟩
  · exact hfind ▸ .declared d content hd hcontent
  · exact hfind ▸ .own content _ hd hs hcontent
  · rw [hfind]
    cases hi : r.inferred? status with
    | none => exact .silent hd hi
    | some text => exact .inferred text hd hi

open Compiling

section Leaf

variable {c : Catalog}

/-- A content is made of the schemas that were given for it. -/
theorem asks_contentOf_given (t : Ty) (contentTypes : List String) :
    Asks c (contentOf c t contentTypes) (t.asContent.map .body) fun content es =>
      ContentOf (givenBy es) t contentTypes content := by
  have hsome : t ≠ .nothing → Asks c
      (do return contentUnder contentTypes (← registering (Registry.schemaOf c t)))
      [.body t] fun content es => ContentOf (givenBy es) t contentTypes content := fun ht =>
    asks_map (asks_registering (.body t)) fun x es hes => .under x ht (by simp [givenBy, hes])
  cases t with
  | nothing => exact asks_pure (.nothing rfl)
  | _ => exact hsome (by simp)

/-- The declared responses are made of the schemas that were given for them. -/
theorem asks_declaredResponses_given (ds : List Respond) :
    Asks c (declaredResponses c ds) (ds.flatMap fun d => d.returns.asContent.map .body)
      fun declared es => List.Forall₂ (DeclaredAs (givenBy es)) ds declared := by
  induction ds with
  | nil => exact asks_pure .nil
  | cons d ds ih =>
      rw [List.flatMap_cons]
      refine asks_bind (asks_contentOf_given d.returns d.contentTypes) (fun content => asks_map
        (H := fun declared es => ∃ rest, List.Forall₂ (DeclaredAs (givenBy es)) ds rest ∧
          declared = (d.statusKey, { description := d.description, content }) :: rest)
        ih fun rest es hrest => ⟨rest, hrest, rfl⟩) ?_
      rintro content _ es es' hcontent ⟨rest, hrest, rfl⟩
      exact .cons ⟨content, hcontent.mono (givenBy_mono (List.subset_append_left es es')), rfl⟩
        (hrest.imp fun _ _ h => h.mono (givenBy_mono (List.subset_append_right es es')))

/-- Headers are made of the schemas that were given for them. -/
theorem asks_headersOf_given (hs : List ResponseHeader) :
    Asks c (headersOf c hs) (hs.map fun h => .parameter h.ty) fun headers es =>
      List.Forall₂ (HeaderOf es) hs headers := by
  induction hs with
  | nil => exact asks_pure .nil
  | cons h hs ih =>
      rw [List.map_cons, ← List.singleton_append]
      have hschema : Asks c (parameterSchema c h.ty false) [.parameter h.ty] fun x es =>
          es = [(.parameter h.ty, x)] :=
        asks_map (asks_registering (.parameter h.ty)) fun _ _ hes => hes
      refine asks_bind hschema (fun x => asks_map
        (H := fun headers es => ∃ rest, List.Forall₂ (HeaderOf es) hs rest ∧
          headers = (h.name, { description := h.description, schema := some x }) :: rest)
        ih fun rest es hrest => ⟨rest, hrest, rfl⟩) ?_
      rintro x _ _ es' rfl ⟨rest, hrest, rfl⟩
      exact .cons ⟨x, List.mem_cons_self, rfl⟩
        (hrest.imp fun _ _ h => h.mono (List.subset_cons_self _ _))

/-- The responses of an endpoint are made as its route says. -/
theorem asks_responsesOf_made (r : Route) (g : Gathered) :
    Asks c (responsesOf c r.endpoint g) r.endpoint.requests fun responses es =>
      g.invalid = r.qualifiers.filterMap Qualifier.invalid? →
      g.notFound = r.qualifiers.filterMap Qualifier.missing? → r.Makes es responses := by
  rw [responsesOf_eq, Endpoint.requests, List.append_assoc]
  -- what comes after the content of the endpoint's own status
  have hrest : ∀ content, Asks c (do
      let headers ← headersOf c r.endpoint.headers
      let declared ← declaredResponses c r.endpoint.responses
      return (r.endpoint.ownResponses g content headers).putAll declared)
      ((r.endpoint.headers.map fun h => .parameter h.ty) ++
        r.endpoint.responses.flatMap fun d => d.returns.asContent.map .body)
      fun responses es => ∃ headers declared,
        List.Forall₂ (HeaderOf es) r.endpoint.headers headers ∧
        List.Forall₂ (DeclaredAs (givenBy es)) r.endpoint.responses declared ∧
        responses = (r.endpoint.ownResponses g content headers).putAll declared := by
    intro content
    refine asks_bind (asks_headersOf_given r.endpoint.headers) (fun headers => asks_map
      (H := fun responses es => ∃ declared,
        List.Forall₂ (DeclaredAs (givenBy es)) r.endpoint.responses declared ∧
        responses = (r.endpoint.ownResponses g content headers).putAll declared)
      (asks_declaredResponses_given r.endpoint.responses)
      fun declared es hdeclared => ⟨declared, hdeclared, rfl⟩) ?_
    rintro headers _ es es' hheaders ⟨declared, hdeclared, rfl⟩
    exact ⟨headers, declared,
      hheaders.imp fun _ _ h => h.mono (List.subset_append_left es es'),
      hdeclared.imp fun _ _ h => h.mono (givenBy_mono (List.subset_append_right es es')), rfl⟩
  refine asks_bind (asks_contentOf_given r.endpoint.returns r.endpoint.contentTypes) hrest ?_
  rintro content _ es es' hcontent ⟨headers, declared, hheaders, hdeclared, rfl⟩ hinvalid hmissing
  have hright := List.subset_append_right es es'
  exact .intro hinvalid hmissing (hcontent.mono (givenBy_mono (List.subset_append_left es es')))
    (hheaders.imp fun _ _ h => h.mono hright)
    (hdeclared.imp fun _ _ h => h.mono (givenBy_mono hright))

/-- What may be invalid or missing is gathered in the order of the qualifiers. -/
theorem asks_gatherAll_named (r : Route) :
    Asks c (r.qualifiers.foldlM (gather c r.title) {}) (r.qualifiers.flatMap Qualifier.requests)
      fun g _ => g.invalid = r.qualifiers.filterMap Qualifier.invalid? ∧
        g.notFound = r.qualifiers.filterMap Qualifier.missing? := by
  intro s g s' hrun
  obtain ⟨es, hes, -⟩ := asks_gatherAll r.title {} r.qualifiers s g s' hrun
  obtain ⟨read, hread, rfl⟩ := Gathered.exists_reading hrun
  have hinvalid := Gathered.invalid_reading {} read
  have hmissing := Gathered.notFound_reading {} read
  rw [hread, List.nil_append] at hinvalid hmissing
  exact ⟨es, hes, hinvalid, hmissing⟩

/-- The responses of an operation are made as its route says. -/
theorem asks_operationOf_made (r : Route) :
    Asks c (operationOf c r) r.requests fun op es => r.Makes es op.responses := by
  refine asks_bind (asks_gatherAll_named r)
    (G := fun g op es => g.invalid = r.qualifiers.filterMap Qualifier.invalid? →
      g.notFound = r.qualifiers.filterMap Qualifier.missing? → r.Makes es op.responses)
    (fun g => ?_)
    fun g op es es' hg h => (h hg.1 hg.2).mono (List.subset_append_right es es')
  split
  · exact asks_throw
  · exact asks_map (asks_responsesOf_made r g) fun responses es h => h

/-- A leaf answers as its route does. -/
theorem asks_leaf_given (r : Route) : Asks c (leaf c r) r.requests fun l es =>
    ∀ status, l.route.Answers (givenBy es) status (l.operation.responses.find? status) :=
  asks_map (asks_operationOf_made r) fun _ _ h status => h.answers status

/-- Routes compile to leaves that have the responses which their routes answer with. -/
theorem asks_answers (rs : List Route) :
    Asks c (leaves c rs) (rs.flatMap Route.requests) fun ls es => ∀ l ∈ ls, ∀ status,
      l.route.Answers (givenBy es) status (l.operation.responses.find? status) := by
  induction rs with
  | nil => exact asks_pure (by simp)
  | cons r rs ih =>
      rw [leaves, List.mapM_cons, List.flatMap_cons]
      refine asks_bind (asks_leaf_given r) (fun l => asks_map
        (H := fun ls es => ∃ rest, ls = l :: rest ∧ ∀ l ∈ rest, ∀ status,
          l.route.Answers (givenBy es) status (l.operation.responses.find? status))
        ih fun rest es h => ⟨rest, rfl, h⟩) ?_
      rintro l _ es es' hl ⟨rest, rfl, hrest⟩
      refine List.forall_mem_cons.2 ⟨fun status => ?_, fun l' hl' status => ?_⟩
      · exact (hl status).mono (givenBy_mono (List.subset_append_left es es'))
      · exact (hrest l' hl' status).mono (givenBy_mono (List.subset_append_right es es'))

end Leaf

/-! ## schemas that are remembered -/

namespace Registry

/-- A registry gives a schema for a type as a body, and is left as it is. -/
def Gives (c : Catalog) (r : Registry) (t : Ty) (x : Schema) : Prop :=
  (schemaOf c t).run.run r = (.ok x, r)

variable {c : Catalog} {r r' : Registry} {stored : List Entry}

/-- An answer is remembered beside the earlier ones. -/
theorem remembered_of_answer {q : Request} {x : Schema} (hr : r.Records stored)
    (hes : Consistent stored) (h : (answer c q).run.run r = (.ok x, r')) :
    (∃ stored', r'.Records stored' ∧ Consistent stored') ∧
      (∀ i y, r.usage.find? i = some y → r'.usage.find? i = some y) ∧
      ∀ t, q = .body t → r'.usage.find? (c.identity t) = some x := by
  have houtcome := outcome_answer hr hes (c := c) q
  rw [h] at houtcome
  cases houtcome with
  | remembered _ hx =>
      refine ⟨⟨stored, hr, hes⟩, fun _ _ hy => hy, ?_⟩
      rintro t rfl
      exact hx
  | stored d _ hnew hd hshared hconsistent hrecords husage =>
      refine ⟨⟨_, hrecords, hconsistent⟩, fun i y hy => ?_, ?_⟩
      · rw [husage]
        cases q with
        | body t =>
            have hne : i ≠ c.identity t := by
              rintro rfl
              simp [Request.remembered?, hy] at hnew
            rw [Request.remember, Table.find?_put_of_ne _ _ hne, hy]
        | parameter t => exact hy
      · rintro t rfl
        rw [husage, Request.remember, Table.find?_put_self]

/-- The schemas that were given for bodies are given again. -/
theorem gives_of_answers {qs : List Request} {es : List (Request × Schema)}
    (hr : r.Records stored) (hes : Consistent stored)
    (h : (answers c qs).run.run r = (.ok es, r')) :
    (∀ i y, r.usage.find? i = some y → r'.usage.find? i = some y) ∧
      ∀ t x, givenBy es t x → r'.Gives c t x := by
  induction qs generalizing r stored es with
  | nil =>
      obtain ⟨rfl, rfl⟩ := Registering.run_pure_ok h
      exact ⟨fun _ _ hy => hy, by simp [givenBy]⟩
  | cons q qs ih =>
      obtain ⟨x, rest, r₁, hx, hrest, rfl⟩ := run_answers_cons_ok h
      obtain ⟨⟨stored', hr₁, hes₁⟩, hkept, hbody⟩ := remembered_of_answer hr hes hx
      obtain ⟨hkept', hgives⟩ := ih hr₁ hes₁ hrest
      refine ⟨fun i y hy => hkept' i y (hkept i y hy), fun t y hy => ?_⟩
      rcases List.mem_cons.1 hy with heq | hy
      · obtain ⟨rfl, rfl⟩ := Prod.mk.inj heq
        exact run_schemaOf_of_usage (hkept' _ _ (hbody t rfl))
      · exact hgives t y hy

end Registry

/-- A tree compiles to leaves that have the responses which their routes answer with; their
contents have the schemas that the registry gives at the end. -/
theorem Tree.Folds.answers {c : Catalog} {t : Tree} {p : Partial} {ls : List Leaf} {s : Collected}
    (h : t.Folds c p ls s) : ∀ l ∈ ls, ∀ status,
      l.route.Answers (s.registry.Gives c) status (l.operation.responses.find? status) := by
  obtain ⟨es, hes, hanswers⟩ := asks_answers _ _ _ _ h.leaves
  obtain ⟨-, hgives⟩ := Registry.gives_of_answers Registry.records_empty Registry.Consistent.nil hes
  exact fun l hl status => (hanswers l hl status).mono hgives

/-- A leaf has a response for a status exactly if its route speaks of it. -/
theorem Tree.Folds.isSome_responses {c : Catalog} {t : Tree} {p : Partial} {ls : List Leaf}
    {s : Collected} (h : t.Folds c p ls s) {l : Leaf} (hl : l ∈ ls) (status : String) :
    (l.operation.responses.find? status).isSome = l.route.speaks status :=
  (h.answers l hl status).isSome_eq

/-- Where a route is, there is its leaf. -/
theorem Tree.Folds.exists_stands {c : Catalog} {t : Tree} {p : Partial} {ls : List Leaf}
    {s : Collected} (h : t.Folds c p ls s) {rs : List Route} (hrs : t.flatten = .ok rs) {i : Nat}
    {r : Route} (hr : rs[i]? = some r) :
    ∃ l, l.route = r ∧ Stands ls r.key r.endpoint.method i l := by
  obtain rfl := Except.ok.inj (h.flatten.symm.trans hrs)
  rw [List.getElem?_map] at hr
  obtain ⟨l, hl, rfl⟩ := Option.map_eq_some_iff.1 hr
  exact ⟨l, rfl, hl, rfl, rfl⟩

/-- The leaf of the last route of all has the response for each status that the route has one
for. -/
theorem Tree.Folds.exists_lastWith_of_last {c : Catalog} {t : Tree} {p : Partial}
    {ls : List Leaf} {s : Collected} (h : t.Folds c p ls s) (rs : List Route) {r : Route}
    (hrs : t.flatten = .ok (rs ++ [r])) (status : String) (hspeaks : r.speaks status = true) :
    ∃ l, l.route = r ∧ LastWith ls r.key r.endpoint.method status rs.length l := by
  obtain ⟨l, rfl, hl⟩ := h.exists_stands hrs (i := rs.length) (r := r)
    List.getElem?_concat_length
  refine ⟨l, rfl, hl, ?_, fun j l' hj hl' => ?_⟩
  · rw [h.isSome_responses (List.mem_of_getElem? hl.here), hspeaks]
  · have hroutes := Except.ok.inj (h.flatten.symm.trans hrs)
    have hlen : ls.length = rs.length + 1 := by simpa using congrArg List.length hroutes
    have hlt := (List.getElem?_eq_some_iff.1 hl'.here).1
    omega

end ApiTree
