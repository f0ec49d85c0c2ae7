import ApiTree.Proofs.Compilation.Answers

/-!
# ApiTree.Proofs.Compilation.Inference

Which responses one route has.  The endpoint speaks first: what it declares one by one, the last
declaration of a status before the others, and then the response of its own status.  Only for a
status that it leaves open is there a response that is inferred from the qualifiers above it, and
that names those which are responsible (`Named`).

* `materialize_responses` — the statuses of the operation of a route, and the response for each.
-/

namespace ApiTree
open Compiling

/-! ## responsible qualifiers -/

/-- A request can be invalid because of a qualifier, which texts call by a name: a body, or a
parameter that is required and not a plain text. -/
inductive Qualifier.Invalid : Qualifier → String → Prop
  | body (t : Ty) (contentTypes : List String) (d : Option String) :
    Invalid (.body t contentTypes d) "body"
  | query (name : String) (t : Ty) (d : Option String) (ht : t ≠ .scalar .str) :
    Invalid (.query name t true d) name
  | header (name : String) (t : Ty) (d : Option String) (ht : t ≠ .scalar .str) :
    Invalid (.header name t true d) name

/-- A path may not be found because of a qualifier: a capture that is not a plain text. -/
inductive Qualifier.Missing : Qualifier → String → Prop
  | capture (name : String) (t : Ty) (d : Option String) (ht : t ≠ .scalar .str) :
    Missing (.capture name t d) name
  | captureAll (name : String) (t : Ty) (d : Option String) (ht : t ≠ .scalar .str) :
    Missing (.captureAll name t d) name

/-- The names of the responsible ones among some qualifiers, in order. -/
inductive Named (Responsible : Qualifier → String → Prop) : List Qualifier → List String → Prop
  | nil : Named Responsible [] []
  | responsible {q : Qualifier} {n : String} {qs : List Qualifier} {ns : List String}
    (h : Responsible q n) (rest : Named Responsible qs ns) : Named Responsible (q :: qs) (n :: ns)
  | other {q : Qualifier} {qs : List Qualifier} {ns : List String}
    (h : ∀ n, ¬ Responsible q n) (rest : Named Responsible qs ns) : Named Responsible (q :: qs) ns

theorem Ty.decodeCanFail_iff (t : Ty) : t.decodeCanFail = true ↔ t ≠ .scalar .str := by
  cases t with
  | scalar s => cases s <;> simp [decodeCanFail]
  | _ => simp [decodeCanFail]

theorem Qualifier.invalid?_eq_some_iff (q : Qualifier) (n : String) :
    q.invalid? = some n ↔ q.Invalid n := by
  constructor
  · intro h
    cases q with
    | body t contentTypes d =>
        obtain rfl := Option.some.inj h
        exact .body t contentTypes d
    | query name t required d =>
        obtain ⟨hreads, h⟩ := Option.ite_none_right_eq_some.1 h
        obtain rfl := Option.some.inj h
        obtain ⟨rfl, ht⟩ := Bool.and_eq_true_iff.1 hreads
        exact .query name t d (t.decodeCanFail_iff.1 ht)
    | header name t required d =>
        obtain ⟨hreads, h⟩ := Option.ite_none_right_eq_some.1 h
        obtain rfl := Option.some.inj h
        obtain ⟨rfl, ht⟩ := Bool.and_eq_true_iff.1 hreads
        exact .header name t d (t.decodeCanFail_iff.1 ht)
    | _ => cases h
  · rintro (⟨t, contentTypes, d⟩ | ⟨name, t, d, ht⟩ | ⟨name, t, d, ht⟩)
    · rfl
    · simp [invalid?, t.decodeCanFail_iff.2 ht]
    · simp [invalid?, t.decodeCanFail_iff.2 ht]

theorem Qualifier.missing?_eq_some_iff (q : Qualifier) (n : String) :
    q.missing? = some n ↔ q.Missing n := by
  constructor
  · intro h
    cases q with
    | capture name t d =>
        obtain ⟨ht, h⟩ := Option.ite_none_right_eq_some.1 h
        obtain rfl := Option.some.inj h
        exact .capture name t d (t.decodeCanFail_iff.1 ht)
    | captureAll name t d =>
        obtain ⟨ht, h⟩ := Option.ite_none_right_eq_some.1 h
        obtain rfl := Option.some.inj h
        exact .captureAll name t d (t.decodeCanFail_iff.1 ht)
    | _ => cases h
  · rintro (⟨name, t, d, ht⟩ | ⟨name, t, d, ht⟩) <;> simp [missing?, t.decodeCanFail_iff.2 ht]

section Named

variable {Responsible : Qualifier → String → Prop} {f : Qualifier → Option String}

/-- The names are determined by the qualifiers. -/
theorem named_iff_filterMap (h : ∀ q n, f q = some n ↔ Responsible q n) (qs : List Qualifier)
    (ns : List String) : Named Responsible qs ns ↔ ns = qs.filterMap f := by
  constructor
  · intro hnamed
    induction hnamed with
    | nil => rfl
    | responsible hq _ ih => rw [List.filterMap_cons_some ((h _ _).2 hq), ih]
    | other hq _ ih =>
        have hnone := Option.eq_none_iff_forall_ne_some.2 fun n hn => hq n ((h _ n).1 hn)
        rw [List.filterMap_cons_none hnone, ih]
  · rintro rfl
    induction qs with
    | nil => exact .nil
    | cons q qs ih =>
        cases hq : f q with
        | none =>
            rw [List.filterMap_cons_none hq]
            refine .other (fun n hn => ?_) ih
            rw [← h, hq] at hn
            cases hn
        | some n =>
            rw [List.filterMap_cons_some hq]
            exact .responsible ((h q n).1 hq) ih

theorem filterMap_ne_nil_iff (h : ∀ q n, f q = some n ↔ Responsible q n) (qs : List Qualifier) :
    qs.filterMap f ≠ [] ↔ ∃ q ∈ qs, ∃ n, Responsible q n := by
  simp [← h, Option.ne_none_iff_exists']

end Named

/-! ## the responses of a route -/

/-- The response that a route has for a status, where `es` are the schemas that were given for
its types. -/
inductive Route.Responds (es : List (Request × Schema)) (r : Route) (status : String) :
    Response → Prop
  /-- The last one that is declared for the status. -/
  | declared (d : Respond) (content : Table String MediaType)
    (hd : r.endpoint.declared? status = some d)
    (hcontent : ContentOf (givenBy es) d.returns d.contentTypes content) :
    Responds es r status { description := d.description, content }
  /-- The one of the endpoint's own status, with the headers of the endpoint. -/
  | own (content : Table String MediaType) (headers : List (String × HeaderObject))
    (hd : r.endpoint.declared? status = none) (hs : r.endpoint.statusKey = status)
    (hcontent : ContentOf (givenBy es) r.endpoint.returns r.endpoint.contentTypes content)
    (hheaders : List.Forall₂ (HeaderOf es) r.endpoint.headers headers) :
    Responds es r status { description := "", content, headers := Table.ofList headers }
  /-- One that names what makes a request invalid. -/
  | invalid (names : List String) (hd : r.endpoint.declares status = false) (hs : status = "400")
    (hnames : Named Qualifier.Invalid r.qualifiers names) (hne : names ≠ []) :
    Responds es r status { description := "Invalid " ++ orList names }
  /-- One that names what may not be found. -/
  | notFound (names : List String) (hd : r.endpoint.declares status = false) (hs : status = "404")
    (hnames : Named Qualifier.Missing r.qualifiers names) (hne : names ≠ []) :
    Responds es r status { description := orList names ++ " not found" }

/-- An inferred text is there for two statuses at most, and only if something is responsible. -/
theorem inferredText_eq_some_iff (invalid missing : List String) (status text : String) :
    inferredText invalid missing status = some text ↔
      (status = "400" ∧ invalid ≠ [] ∧ text = "Invalid " ++ orList invalid) ∨
      (status = "404" ∧ missing ≠ [] ∧ text = orList missing ++ " not found") := by
  rw [inferredText]
  by_cases h400 : status = "400"
  · cases invalid <;> simp [h400, eq_comm]
  · by_cases h404 : status = "404"
    · cases missing <;> simp [h404, eq_comm]
    · simp [h400, h404]

namespace Route

variable {es : List (Request × Schema)} {r : Route} {responses : Table String Response}

/-- The responses of a route are what it responds with. -/
theorem Makes.responds (h : r.Makes es responses) {status : String} {resp : Response}
    (hfind : responses.find? status = some resp) : r.Responds es status resp := by
  rcases h.find?_cases status with ⟨d, content, hd, hcontent, hmade⟩ |
    ⟨content, headers, hd, hs, hcontent, hheaders, hmade⟩ | ⟨hd, hmade⟩
  · obtain rfl := Option.some.inj (hfind.symm.trans hmade)
    exact .declared d content hd hcontent
  · obtain rfl := Option.some.inj (hfind.symm.trans hmade)
    exact .own content headers hd hs hcontent hheaders
  · obtain ⟨text, htext, rfl⟩ := Option.map_eq_some_iff.1 (hmade.symm.trans hfind)
    rcases (inferredText_eq_some_iff _ _ status text).1 htext with
      ⟨hs, hne, rfl⟩ | ⟨hs, hne, rfl⟩
    · exact .invalid _ hd hs
        ((named_iff_filterMap Qualifier.invalid?_eq_some_iff _ _).2 rfl) hne
    · exact .notFound _ hd hs
        ((named_iff_filterMap Qualifier.missing?_eq_some_iff _ _).2 rfl) hne

theorem isSome_inferred?_iff (r : Route) (status : String) :
    (r.inferred? status).isSome ↔ (status = "400" ∧ ∃ q ∈ r.qualifiers, ∃ n, q.Invalid n) ∨
      (status = "404" ∧ ∃ q ∈ r.qualifiers, ∃ n, q.Missing n) := by
  rw [← filterMap_ne_nil_iff Qualifier.invalid?_eq_some_iff,
    ← filterMap_ne_nil_iff Qualifier.missing?_eq_some_iff, Option.isSome_iff_exists]
  simp only [inferred?, inferredText_eq_some_iff, exists_or, exists_and_left, exists_eq, and_true]

theorem declares_iff (e : Endpoint) (status : String) :
    e.declares status = true ↔
      status = e.statusKey ∨ ∃ d ∈ e.responses, d.statusKey = status := by
  rw [eq_comm (a := status)]
  simp [Endpoint.declares, Endpoint.declared?, List.find?_isSome]

/-- A route has a response for its own status, for those it declares, and where something is
responsible for an inferred one. -/
theorem Makes.mem_keys_iff (h : r.Makes es responses) (status : String) :
    status ∈ responses.keys ↔ status = r.endpoint.statusKey ∨
      (∃ d ∈ r.endpoint.responses, d.statusKey = status) ∨
      (status = "400" ∧ ∃ q ∈ r.qualifiers, ∃ n, q.Invalid n) ∨
      (status = "404" ∧ ∃ q ∈ r.qualifiers, ∃ n, q.Missing n) := by
  rw [Table.mem_keys_iff, ← Option.isSome_iff_exists, (h.answers status).isSome_eq, speaks,
    Bool.or_eq_true, declares_iff, isSome_inferred?_iff, or_assoc]

end Route

/-- The responses of a route are inferred from its qualifiers where its endpoint leaves them open.

A route that compiles has one operation, at its path and method, and asks for the schemas of its
types in a fixed order.  The operation has a response for the status of the endpoint, for each
declared status, for 400 exactly if a request can be invalid because of a qualifier, for 404 exactly
if a path may not be found because of one, and for no other status, each once.  The response for a
status is the last one that is declared for it; else, for its own status, that of the endpoint;
else the inferred one, which names precisely the responsible qualifiers, in order. -/
theorem materialize_responses (c : Catalog) (r : Route) (s s' : Collected) (p : Partial)
    (h : (materialize c r).run s = .ok (p, s')) :
    ∃ op es,
      p = [(r.key, ⟨r.display, captureNames r.qualifiers, [(r.endpoint.method, op)]⟩)] ∧
      (Registry.answers c r.requests).run.run s.registry = (.ok es, s'.registry) ∧
      op.responses.keys.Nodup ∧
      (∀ status, status ∈ op.responses.keys ↔ status = r.endpoint.statusKey ∨
        (∃ d ∈ r.endpoint.responses, d.statusKey = status) ∨
        (status = "400" ∧ ∃ q ∈ r.qualifiers, ∃ n, q.Invalid n) ∨
        (status = "404" ∧ ∃ q ∈ r.qualifiers, ∃ n, q.Missing n)) ∧
      ∀ status resp, op.responses.find? status = some resp → r.Responds es status resp := by
  obtain ⟨op, t, hop, h⟩ := run_bind_ok.1 h
  obtain ⟨rfl, rfl⟩ := run_pure_ok.1 h
  obtain ⟨es, hes, hmade⟩ := asks_operationOf_made r s op t hop
  have hleaf : (leaf c r).run s = .ok (⟨r, op⟩, t) :=
    run_bind_ok.2 ⟨op, t, hop, run_pure_ok.2 ⟨rfl, rfl⟩⟩
  exact ⟨op, es, rfl, hes, (wellFormed_of_leaf hleaf).2.proper.responses, hmade.mem_keys_iff,
    fun _ _ hfind => hmade.responds hfind⟩

/-- Changing an order; that it is not there is declared twice. -/
def changeOrder : Route :=
  ⟨[.segment "orders", .capture "id" (.scalar .int) none, .body (.scalar .str) ["text/plain"] none,
      .query "lang" (.scalar .str) true none, .query "version" (.scalar .int) true none],
    { method := .put, responses := [{ status := 404, description := "gone" },
        { status := 404, description := "no order" }] }⟩

/-- The body and the version can be invalid, but not the language; of the two declared texts the
last one stands in the place of the inferred one. -/
theorem changeOrder_responses : ∃ p s' op invalid missing,
    (materialize [] changeOrder).run {} = .ok (p, s') ∧
    p = [(changeOrder.key, ⟨"/orders/\x7bid\x7d", ["id"], [(.put, op)]⟩)] ∧
    op.responses.find? "400" = some invalid ∧
    invalid.description = "Invalid \x60body\x60 or \x60version\x60" ∧
    op.responses.find? "404" = some missing ∧ missing.description = "no order" := by
  have hok : ((materialize [] changeOrder).run {}).toOption.isSome = true := by decide +kernel
  obtain ⟨⟨p, s'⟩, hrun⟩ := isSome_toOption_iff.1 hok
  obtain ⟨op, es, rfl, -, -, hkeys, hresponds⟩ := materialize_responses [] changeOrder {} s' p hrun
  have hbody : ∃ q ∈ changeOrder.qualifiers, ∃ n, q.Invalid n :=
    ⟨.body (.scalar .str) ["text/plain"] none, by simp [changeOrder], _, .body _ _ _⟩
  have hdeclared : ∃ d ∈ changeOrder.endpoint.responses, d.statusKey = "404" :=
    ⟨{ status := 404, description := "gone" }, by simp [changeOrder], rfl⟩
  obtain ⟨invalid, hinvalid⟩ := (Table.mem_keys_iff _ _).1
    ((hkeys "400").2 (.inr (.inr (.inl ⟨rfl, hbody⟩))))
  obtain ⟨missing, hmissing⟩ := (Table.mem_keys_iff _ _).1 ((hkeys "404").2 (.inr (.inl hdeclared)))
  have hdisplay : changeOrder.display = "/orders/\x7bid\x7d" := by decide +kernel
  refine ⟨_, s', op, invalid, missing, hrun, ?_, hinvalid, ?_, hmissing, ?_⟩
  · rw [hdisplay]
    rfl
  · cases hresponds _ _ hinvalid with
    | declared d content hd => cases hd
    | own content headers hd hs => exact absurd hs (by decide)
    | invalid names hd hs hnames hne =>
        obtain rfl := (named_iff_filterMap Qualifier.invalid?_eq_some_iff _ _).1 hnames
        decide +kernel
    | notFound names hd hs => exact absurd hs (by decide)
  · cases hresponds _ _ hmissing with
    | declared d content hd =>
        obtain rfl := Option.some.inj hd
        rfl
    | own content headers hd hs => exact absurd hs (by decide)
    | invalid names hd hs => exact absurd hs (by decide)
    | notFound names hd => exact absurd hd (by decide)

end ApiTree
