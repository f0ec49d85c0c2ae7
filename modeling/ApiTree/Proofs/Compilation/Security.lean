import ApiTree.Proofs.Compilation.Captures
import ApiTree.Proofs.Compilation.Links

/-!
# ApiTree.Proofs.Compilation.Security

The security of a document.  A qualifier that asks for a scheme does two things: the scheme is
declared in what compiling collects, and its name goes with the operation through all merges.
`Compiling.Admits` says which schemes a step declares (`Compiling.admits_bind` puts steps
together); the names of an operation that is merged are those of its parts
(`Operation.mem_securityNames_united`).  So what is declared and what is asked for stay in step.

* `compile_security` — the schemes of a document are those that its routes ask for, each
  operation asks for the schemes of its own routes, and routes that ask for different schemes
  under one name do not compile.
-/

namespace ApiTree

/-- The name of the scheme that a qualifier asks for. -/
def Qualifier.authName? : Qualifier → Option String
  | .basic name _ | .bearer name _ => some name
  | _ => none

/-- The scheme of a qualifier is declared by the name of its authentication. -/
theorem Qualifier.map_fst_scheme? (q : Qualifier) : q.scheme?.map Prod.fst = q.authName? := by
  cases q <;> rfl

/-- The names of the schemes that a route asks for. -/
def Route.authNames (r : Route) : List String := r.qualifiers.filterMap Qualifier.authName?

/-- The schemes that a route asks for, each under its name. -/
def Route.schemes (r : Route) : Table String SecurityScheme :=
  r.qualifiers.filterMap Qualifier.scheme?

/-- The schemes of a route are declared by the names of its authentications. -/
theorem Route.keys_schemes (r : Route) : r.schemes.keys = r.authNames := by
  rw [schemes, Table.keys, List.map_filterMap]
  exact List.filterMap_congr fun q _ => q.map_fst_scheme?

/-! ## schemes that are declared -/

namespace Compiling

variable {α β : Type}

/-- A step after which the schemes are those from before and the given ones. -/
def Admits (m : Compiling α) (schemes : Table String SecurityScheme) : Prop :=
  ∀ s a s', m.run s = .ok (a, s') → ∀ n x,
    s'.securitySchemes.find? n = some x ↔ s.securitySchemes.find? n = some x ∨ (n, x) ∈ schemes

/-- A step that leaves the schemes as they are admits none. -/
theorem admits_of_eq {m : Compiling α}
    (h : ∀ s a s', m.run s = .ok (a, s') → s'.securitySchemes = s.securitySchemes) :
    Admits m [] := by
  intro s a s' hrun n x
  simp [h s a s' hrun]

theorem admits_pure (a : α) : Admits (pure a) [] :=
  admits_of_eq fun s b s' hrun => by rw [(run_pure_ok.1 hrun).2]

theorem admits_throw {f : Fault} {schemes : Table String SecurityScheme} :
    Admits (throw f : Compiling α) schemes := by
  intro s a s' hrun
  simp only [run_throw, reduceCtorEq] at hrun

/-- Asking a registry admits no schemes. -/
theorem admits_registering (m : Registering α) : Admits (registering m) [] :=
  admits_of_eq fun s a s' hrun => by
    obtain ⟨registry, -, rfl⟩ := run_registering_ok.1 hrun
    rfl

/-- Two steps admit the schemes of the first, and then those of the second. -/
theorem admits_bind {m : Compiling α} {f : α → Compiling β}
    {schemes schemes' : Table String SecurityScheme} (hm : Admits m schemes)
    (hf : ∀ a, Admits (f a) schemes') : Admits (m >>= f) (schemes ++ schemes') := by
  intro s b s' hrun n x
  obtain ⟨a, t, ha, hb⟩ := run_bind_ok.1 hrun
  rw [hf a t b s' hb, hm s a t ha, List.mem_append, or_assoc]

/-- A step whose result is put into another form. -/
theorem admits_map {m : Compiling α} {f : α → β} {schemes : Table String SecurityScheme}
    (hm : Admits m schemes) : Admits (do return f (← m)) schemes := by
  have h := admits_bind hm fun a => admits_pure (f a)
  rwa [List.append_nil] at h

/-- A scheme is declared again only in the same way, so each has its name to itself. -/
theorem admits_declareScheme (name : String) (scheme : SecurityScheme) :
    Admits (declareScheme name scheme) [(name, scheme)] := by
  intro s a s' hrun n x
  obtain ⟨t, u, hget, hrun⟩ := run_bind_ok.1 hrun
  cases hget
  split at hrun
  · simp at hrun
  · -- if the name is taken it is taken by the same scheme, else the step would have failed
    next hsame =>
      cases hrun
      rw [List.mem_singleton, Prod.mk.injEq]
      by_cases hn : n = name
      · subst hn
        simp only [Table.find?_put_self, Option.some.injEq, true_and]
        constructor
        · exact fun hx => .inr hx.symm
        · rintro (hx | rfl)
          · rw [hx, Option.any_some, bne_iff_ne, ne_eq, not_not] at hsame
            exact hsame.symm
          · rfl
      · simp [Table.find?_put_of_ne _ _ hn, hn]

end Compiling

open Compiling

section Leaf

variable {c : Catalog}

theorem admits_letIn (title : String) (g : Gathered) (q : Qualifier) :
    Admits (letIn title g q) q.scheme?.toList := by
  cases q with
  | body t contentTypes d =>
      simp only [letIn]
      split
      · exact admits_throw
      · exact admits_pure ()
  | alien a => exact admits_throw
  | basic name realm => exact admits_declareScheme name _
  | bearer name format => exact admits_declareScheme name _
  | _ => exact admits_pure ()

theorem admits_parameterSchema (t : Ty) (repeated : Bool) :
    Admits (parameterSchema c t repeated) [] :=
  admits_map (admits_registering _)

theorem admits_schema (q : Qualifier) : Admits (q.schema c) [] := by
  cases q with
  | capture _ t _ | captureAll _ t _ | query _ t _ _ | queries _ t _ | header _ t _ _ =>
      exact admits_parameterSchema t _
  | body t _ _ => exact admits_registering _
  | _ => exact admits_pure _

/-- Gathering a qualifier admits its scheme. -/
theorem admits_gather (title : String) (g : Gathered) (q : Qualifier) :
    Admits (gather c title g q) q.scheme?.toList := by
  have h := admits_bind (admits_letIn title g q) fun _ =>
    admits_map (f := g.adding q) (admits_schema (c := c) q)
  rwa [List.append_nil] at h

/-- Gathering qualifiers admits their schemes. -/
theorem admits_gatherAll (title : String) (g : Gathered) (qs : List Qualifier) :
    Admits (qs.foldlM (gather c title) g) (qs.filterMap Qualifier.scheme?) := by
  induction qs generalizing g with
  | nil => exact admits_pure g
  | cons q qs ih =>
      have hsplit : (q :: qs).filterMap Qualifier.scheme? =
          q.scheme?.toList ++ qs.filterMap Qualifier.scheme? := by
        cases h : q.scheme? <;> simp [h]
      rw [List.foldlM_cons, hsplit]
      exact admits_bind (admits_gather title g q) ih

theorem admits_contentOf (t : Ty) (contentTypes : List String) :
    Admits (contentOf c t contentTypes) [] := by
  cases t with
  | nothing => exact admits_pure _
  | _ => exact admits_map (admits_registering _)

theorem admits_headersOf (hs : List ResponseHeader) : Admits (headersOf c hs) [] := by
  induction hs with
  | nil => exact admits_pure _
  | cons h hs ih =>
      exact admits_bind (admits_parameterSchema h.ty false) fun _ => admits_map ih

theorem admits_declaredResponses (ds : List Respond) : Admits (declaredResponses c ds) [] := by
  induction ds with
  | nil => exact admits_pure _
  | cons d ds ih =>
      exact admits_bind (admits_contentOf d.returns d.contentTypes) fun _ => admits_map ih

theorem admits_responsesOf (e : Endpoint) (g : Gathered) : Admits (responsesOf c e g) [] :=
  admits_bind (admits_contentOf e.returns e.contentTypes) fun _ =>
    admits_bind (admits_headersOf e.headers) fun _ =>
      admits_map (admits_declaredResponses e.responses)

/-- A route admits the schemes of its qualifiers. -/
theorem admits_leaf (r : Route) : Admits (leaf c r) r.schemes := by
  have hoperation : Admits (operationOf c r) (r.schemes ++ []) := by
    refine admits_bind (admits_gatherAll r.title {} r.qualifiers) fun g => ?_
    split
    · exact admits_throw
    · exact admits_map (admits_responsesOf r.endpoint g)
  rw [List.append_nil] at hoperation
  exact admits_map hoperation

/-- Compiling routes declares the schemes that they ask for, and no others. -/
theorem admits_leaves (rs : List Route) : Admits (leaves c rs) (rs.flatMap Route.schemes) := by
  induction rs with
  | nil => exact admits_pure _
  | cons r rs ih =>
      rw [leaves, List.mapM_cons, List.flatMap_cons]
      exact admits_bind (admits_leaf r) fun _ => admits_map ih

end Leaf

/-! ## schemes that operations ask for -/

/-- The names of the schemes that an operation asks for. -/
def Operation.securityNames (op : Operation) : List String := op.security.flatMap Table.keys

namespace Gathered

/-- Each authentication of a route is one more requirement. -/
theorem security_reading (g : Gathered) (es : List (Qualifier × Schema)) :
    (g.reading es).security = g.security ++
      ((es.map Prod.fst).filterMap Qualifier.scheme?).map fun e => [(e.1, [])] := by
  induction es generalizing g with
  | nil => simp [reading]
  | cons e es ih =>
      rw [reading, List.foldl_cons, ← reading, ih, adding]
      cases h : e.1.scheme? <;> simp [h]

end Gathered

/-- A route by itself asks for its own schemes. -/
theorem securityNames_of_leaf {c : Catalog} {r : Route} {l : Leaf} {s s' : Collected}
    (h : (leaf c r).run s = .ok (l, s')) : l.operation.securityNames = l.route.authNames := by
  obtain ⟨es, responses, _, hes, -, -, rfl⟩ := leaf_ok h
  have hsecurity := Gathered.security_reading {} es
  rw [hes, List.nil_append] at hsecurity
  rw [← r.keys_schemes, Operation.securityNames]
  simp only [Gathered.operation, hsecurity, List.flatMap_map]
  exact List.map_eq_flatMap.symm

/-- Requirements that are the same name the same schemes. -/
theorem SecurityRequirement.keys_subset_of_same {a b : SecurityRequirement}
    (h : a.same b = true) : a.keys ⊆ b.keys := by
  intro n hn
  simp only [SecurityRequirement.same, Table.same, Bool.and_eq_true, List.all_eq_true,
    Option.any_eq_true] at h
  obtain ⟨e, he, rfl⟩ := List.mem_map.1 hn
  obtain ⟨v, hv, -⟩ := h.2 e he
  exact (Table.mem_keys_iff b e.1).2 ⟨v, hv⟩

namespace Operation

@[simp] theorem securityNames_muted (op : Operation) : op.muted.securityNames = op.securityNames :=
  rfl

@[simp] theorem securityNames_respelled (names : List String) (op : Operation) :
    (op.respelled names).securityNames = op.securityNames := rfl

/-- A requirement that a union leaves out is the same as one that is there. -/
theorem exists_mem_union_of_mem_right {α : Type} {same : α → α → Bool} (xs ys : List α) {y : α}
    (hy : y ∈ ys) : ∃ x ∈ union same xs ys, x = y ∨ same y x = true := by
  induction ys generalizing xs with
  | nil => simp at hy
  | cons z ys ih =>
      rw [union_cons]
      rcases List.mem_cons.1 hy with rfl | hy
      · split
        · next h =>
            obtain ⟨x, hx, hsame⟩ := List.any_eq_true.1 h
            exact ⟨x, subset_union _ _ x hx, .inr hsame⟩
        · exact ⟨y, subset_union _ _ y (by simp), .inl rfl⟩
      · exact ih _ hy

/-- An operation that is merged asks for what its two sides ask for. -/
theorem mem_securityNames_united (a b : Operation) (n : String) :
    n ∈ (a.united b).securityNames ↔ n ∈ a.securityNames ∨ n ∈ b.securityNames := by
  simp only [securityNames, united, List.mem_flatMap]
  constructor
  · rintro ⟨x, hx, hn⟩
    rcases mem_union _ _ x hx with hx | hx
    · exact .inl ⟨x, hx, hn⟩
    · exact .inr ⟨x, hx, hn⟩
  · rintro (⟨x, hx, hn⟩ | ⟨y, hy, hn⟩)
    · exact ⟨x, subset_union _ _ x hx, hn⟩
    · obtain ⟨x, hx, rfl | hsame⟩ := exists_mem_union_of_mem_right a.security b.security hy
      · exact ⟨x, hx, hn⟩
      · exact ⟨x, hx, SecurityRequirement.keys_subset_of_same hsame hn⟩

/-- Operations together require what one of them requires. -/
theorem mem_securityNames_unitedAll (ops : List Operation) (n : String) :
    n ∈ (unitedAll ops).securityNames ↔ ∃ op ∈ ops, n ∈ op.securityNames := by
  induction ops using List.reverseRecOn with
  | nil => simp [unitedAll, securityNames]
  | append_singleton ops op ih =>
      by_cases hne : ops = []
      · subst hne
        simp [unitedAll]
      · rw [unitedAll_append_singleton hne, mem_securityNames_united, ih]
        simp [or_and_right, exists_or]

end Operation

/-- An operation of a partial document asks for what the leaves of its path and method ask for. -/
theorem Partial.Summarizes.mem_securityNames_iff {p : Partial} {ls : List Leaf}
    (hp : p.Summarizes ls) {k : PathKey} {m : Method} {op : Operation}
    (h : p.operationAt k m = some op) (n : String) :
    n ∈ op.securityNames ↔
      ∃ l ∈ ls, l.key = k ∧ l.method = m ∧ n ∈ l.operation.securityNames := by
  -- neither the place of the answers nor the names of captures count for what is asked for
  obtain ⟨e, he, hop⟩ := Option.bind_eq_some_iff.1 h
  have htogether := (hp.values k e he).operations.values m op hop
  rw [← Operation.securityNames_muted, htogether, together, Operation.securityNames_muted,
    Operation.securityNames_respelled, Operation.mem_securityNames_unitedAll]
  constructor
  · rintro ⟨_, hmem, hn⟩
    obtain ⟨l, hl, rfl⟩ := List.mem_map.1 hmem
    obtain ⟨hl, hm⟩ := mem_group_iff.1 hl
    obtain ⟨hl, hk⟩ := mem_group_iff.1 hl
    exact ⟨l, hl, hk, hm, hn⟩
  · rintro ⟨l, hl, hk, hm, hn⟩
    have hgroup := mem_group_iff.2 ⟨mem_group_iff.2 ⟨hl, hk⟩, hm⟩
    exact ⟨l.operation, List.mem_map_of_mem hgroup, hn⟩

namespace Tree.Folds

variable {c : Catalog} {t : Tree} {p : Partial} {ls : List Leaf} {s : Collected}

/-- What is stored under a name is what some qualifier asks for. -/
theorem find?_securitySchemes (h : t.Folds c p ls s) (n : String) (x : SecurityScheme) :
    s.securitySchemes.find? n = some x ↔
      ∃ l ∈ ls, ∃ q ∈ l.route.qualifiers, q.scheme? = some (n, x) := by
  rw [admits_leaves _ {} ls s h.leaves n x, Table.find?_nil, List.flatMap_map]
  simp only [reduceCtorEq, false_or, List.mem_flatMap, Route.schemes, List.mem_filterMap]

/-- The declared schemes are those of the authentications of the leaves. -/
theorem mem_keys_securitySchemes (h : t.Folds c p ls s) (n : String) :
    n ∈ s.securitySchemes.keys ↔ ∃ l ∈ ls, n ∈ l.route.authNames := by
  rw [Table.mem_keys_iff]
  simp only [h.find?_securitySchemes, Route.authNames, List.mem_filterMap]
  constructor
  · rintro ⟨x, l, hl, q, hq, hx⟩
    exact ⟨l, hl, q, hq, by rw [← q.map_fst_scheme?, hx]; rfl⟩
  · rintro ⟨l, hl, q, hq, hn⟩
    rw [← q.map_fst_scheme?] at hn
    obtain ⟨⟨_, x⟩, hx, rfl⟩ := Option.map_eq_some_iff.1 hn
    exact ⟨x, l, hl, q, hq, hx⟩

/-- An operation requires the authentications of its leaves. -/
theorem mem_securityNames_iff (h : t.Folds c p ls s) {k : PathKey} {m : Method} {op : Operation}
    (hop : p.operationAt k m = some op) (n : String) :
    n ∈ op.securityNames ↔ ∃ l ∈ ls, l.key = k ∧ l.method = m ∧ n ∈ l.route.authNames := by
  have hnames := forall_mem_leaves (fun _ _ _ _ => securityNames_of_leaf) h.leaves
  rw [h.summarizes.2.mem_securityNames_iff hop n]
  refine exists_congr fun l => and_congr_right fun hl => ?_
  rw [hnames l hl]

end Tree.Folds

/-- The schemes of a document are those that its routes ask for, each stored under the name it
is asked for; an operation asks for the schemes of the routes at its path with its method.  Where
routes ask for different schemes under one name there is no document. -/
theorem compile_security (c : Catalog) (t : Tree) (info : Info) (servers : List Server) :
    (∀ compiled, compile c t info servers = .ok compiled → ∃ rs p events s,
      t.flatten = .ok rs ∧ (t.fold c []).run {} = .ok ((p, events), s) ∧
      compiled.document.paths = p.paths ∧
      (∀ n, n ∈ compiled.document.components.securitySchemes.keys ↔ ∃ r ∈ rs, n ∈ r.authNames) ∧
      (∀ r ∈ rs, ∀ q ∈ r.qualifiers, ∀ n x, q.scheme? = some (n, x) →
        compiled.document.components.securitySchemes.find? n = some x) ∧
      ∀ k m op, p.operationAt k m = some op → ∀ n, n ∈ op.securityNames ↔
        ∃ r ∈ rs, r.key = k ∧ r.endpoint.method = m ∧ n ∈ r.authNames) ∧
    ∀ rs, t.flatten = .ok rs → ∀ r ∈ rs, ∀ r' ∈ rs, ∀ q ∈ r.qualifiers, ∀ q' ∈ r'.qualifiers,
      ∀ n x y, q.scheme? = some (n, x) → q'.scheme? = some (n, y) → x ≠ y →
        ∀ compiled, compile c t info servers ≠ .ok compiled := by
  constructor
  · intro compiled h
    obtain ⟨p, ls, s, hfolds, hpaths, hschemes⟩ := exists_folds_collected h
    obtain ⟨events, hfold⟩ := hfolds.fold
    rw [hschemes]
    refine ⟨ls.map Leaf.route, p, events, s, hfolds.flatten, hfold, hpaths, fun n => ?_,
      fun r hr q hq n x hx => ?_, fun k m op hop n => ?_⟩
    · simp only [hfolds.mem_keys_securitySchemes, List.mem_map, exists_exists_and_eq_and]
    · obtain ⟨l, hl, rfl⟩ := List.mem_map.1 hr
      exact (hfolds.find?_securitySchemes n x).2 ⟨l, hl, q, hq, hx⟩
    · simp only [hfolds.mem_securityNames_iff hop, List.mem_map, exists_exists_and_eq_and]
      rfl
  · intro rs hrs r hr r' hr' q hq q' hq' n x y hx hy hne compiled h
    obtain ⟨p, ls, s, hfolds, -⟩ := exists_folds_collected h
    obtain rfl := Except.ok.inj (hrs.symm.trans hfolds.flatten)
    obtain ⟨l, hl, rfl⟩ := List.mem_map.1 hr
    obtain ⟨l', hl', rfl⟩ := List.mem_map.1 hr'
    -- both schemes would be stored under the one name
    have hfirst := (hfolds.find?_securitySchemes n x).2 ⟨l, hl, q, hq, hx⟩
    have hsecond := (hfolds.find?_securitySchemes n y).2 ⟨l', hl', q', hq', hy⟩
    exact hne (Option.some.inj (hfirst.symm.trans hsecond))

/-- Reading for those who log in. -/
def readGuarded : Route := ⟨[.basic "login" "staff"], { method := .get }⟩

/-- Writing for those who bear something of the given name. -/
def writeGuarded (name : String) : Route := ⟨[.bearer name none], { method := .post }⟩

/-- Reading and writing, guarded by two schemes. -/
def guarded (name : String) : Tree :=
  .alt (Tree.under readGuarded.qualifiers (.leaf readGuarded.endpoint))
    (Tree.under (writeGuarded name).qualifiers (.leaf (writeGuarded name).endpoint))

/-- Under two names both schemes are there, each for its own operation; under one name there is
no document. -/
theorem guarded_security :
    (∃ compiled, compile [] (guarded "token") {} [] = .ok compiled ∧
      compiled.document.components.securitySchemes.find? "token" =
        some { type := "http", scheme := some "bearer" } ∧
      ∃ p op, compiled.document.paths = Partial.paths p ∧
        p.operationAt [] .post = some op ∧ "token" ∈ Operation.securityNames op ∧
        "login" ∉ op.securityNames) ∧
    ∀ compiled, compile [] (guarded "login") {} [] ≠ .ok compiled := by
  constructor
  · have hok : (compile [] (guarded "token") {} []).toOption.isSome = true := by decide +kernel
    obtain ⟨compiled, hcompiled⟩ := isSome_toOption_iff.1 hok
    obtain ⟨rs, p, events, s, hrs, hfold, hpaths, -, hstored, hasked⟩ :=
      (compile_security [] (guarded "token") {} []).1 compiled hcompiled
    obtain rfl : [readGuarded, writeGuarded "token"] = rs := Except.ok.inj hrs
    have hwritten : (((guarded "token").fold [] []).run {}).toOption.any
        (fun x => (x.1.1.operationAt [] .post).isSome) = true := by decide +kernel
    rw [hfold] at hwritten
    obtain ⟨op, hop⟩ := Option.isSome_iff_exists.1 hwritten
    refine ⟨compiled, hcompiled, ?_, p, op, hpaths, hop, ?_, fun hlogin => ?_⟩
    · exact hstored (writeGuarded "token") (by simp) (.bearer "token" none) (by simp [writeGuarded])
        "token" _ rfl
    · exact (hasked [] .post op hop "token").2
        ⟨writeGuarded "token", by simp, rfl, rfl, by decide⟩
    · obtain ⟨r, hr, -, hm, hn⟩ := (hasked [] .post op hop "login").1 hlogin
      rcases List.mem_pair.1 hr with rfl | rfl
      · exact absurd hm (by decide)
      · exact absurd hn (by decide)
  · exact (compile_security [] (guarded "login") {} []).2 [readGuarded, writeGuarded "login"] rfl
      readGuarded (by simp) (writeGuarded "login") (by simp) (.basic "login" "staff")
      (by simp [readGuarded]) (.bearer "login" none) (by simp [writeGuarded]) "login" _ _ rfl rfl
      (by decide)

end ApiTree
