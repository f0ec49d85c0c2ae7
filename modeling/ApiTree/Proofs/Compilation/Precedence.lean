import ApiTree.Proofs.Compilation.Answers

/-!
# ApiTree.Proofs.Compilation.Precedence

Which response an operation has for a status, when several leaves of a tree make it.

* `compile_declared_response` — a response that is declared one by one comes through with its
  content.  So does its text, unless it is the one for a path that is not found and codes the
  name of a capture that is called otherwise further left.
* `compile_advisory_response` — an inferred response gives way to what its own leaf or a later
  one declares, but takes the place of what an earlier one declares.
-/

namespace ApiTree

/-! ## declared responses -/

/-- If the last leaf of a path and method that has a response for a status declares it one by
one, the operation has the response with its content.  The text of a response 404 has the
names of captures replaced that are coded in it; every text is left alone whose coded names
stand at one place in all routes of the path, if in any. -/
theorem compile_declared_response (c : Catalog) (t : Tree) (info : Info) (servers : List Server)
    (compiled : Compiled) (h : compile c t info servers = .ok compiled) :
    ∃ p ls s, t.Folds c p ls s ∧ compiled.document.paths = p.paths ∧
      ∀ k m status i l d, LastWith ls k m status i l →
        l.route.endpoint.declared? status = some d →
        ∃ x op r, (t.passages [])[i]? = some x ∧ p.operationAt k m = some op ∧
          op.responses.find? status = some r ∧
          ContentOf (s.registry.Gives c) d.returns d.contentTypes r.content ∧ r.headers = [] ∧
          r.description = (if status = "404" then x.text d.description else d.description) ∧
          ((∀ n ∈ codedNames d.description, Settled (ls.map Leaf.route) k n) →
            r.description = d.description) := by
  obtain ⟨p, ls, s, hfolds, hpaths⟩ := exists_folds h
  refine ⟨p, ls, s, hfolds, hpaths, fun k m status i l d hl hd => ?_⟩
  obtain ⟨x, op, r, hx, hop, hr, hresponse⟩ := hfolds.find?_responses hl
  obtain ⟨content, hcontent, hanswer⟩ :=
    (hfolds.answers l (List.mem_of_getElem? hl.here) status).exists_content hd
  obtain rfl := Option.some.inj (hr.symm.trans hanswer)
  refine ⟨x, op, _, hx, hop, hresponse, by simpa using hcontent, by simp,
    x.description_response status _, fun hsettled => ?_⟩
  obtain ⟨y, hy, hroute⟩ := hfolds.exists_passage hl.here
  obtain rfl := Option.some.inj (hx.symm.trans hy)
  have htext : x.text d.description = d.description := by
    refine Passage.text_eq_self fun renames hrenames n hn => ?_
    refine Tree.find?_renames_eq_none (List.mem_of_getElem? hx) hrenames ?_
    rw [hfolds.map_route_passages, hroute, show l.route.key = k from hl.key]
    exact hsettled n hn
  rw [Passage.description_response, htext, ite_self]

/-- Accounts: one may be read by its `id`; one may be put under a name that is captured as
`name`, and a text for the case that there is none is declared. -/
def accounts (name : String) : Tree :=
  .seq (.segment "accounts") <| .alt
    (.seq (.capture "id" (.scalar .str) none) (.leaf { method := .get }))
    (.seq (.capture name (.scalar .str) none) (.leaf
      { method := .put, responses := [{ status := 404, description := "no \x60name\x60" }] }))

/-- The text that was declared comes through if the captures have one name, and says `id` where
it said `name` if they have two. -/
theorem accounts_declared_response :
    (∃ p ls s op r, (accounts "id").Folds [] p ls s ∧
      p.operationAt [.literal "accounts", .capture] .put = some op ∧
      op.responses.find? "404" = some r ∧ r.description = "no \x60name\x60") ∧
    ∃ p ls s op r, (accounts "name").Folds [] p ls s ∧
      p.operationAt [.literal "accounts", .capture] .put = some op ∧
      op.responses.find? "404" = some r ∧ r.description = "no \x60id\x60" := by
  have hpublished : ∀ name, (compile [] (accounts name) {} []).toOption.isSome = true →
      ∃ p ls s op r, (accounts name).Folds [] p ls s ∧
        p.operationAt [.literal "accounts", .capture] .put = some op ∧
        op.responses.find? "404" = some r ∧
        r.description = renameText (renamesOf ["id"] [name]) "no \x60name\x60" := by
    intro name hok
    obtain ⟨compiled, hcompiled⟩ := isSome_toOption_iff.1 hok
    obtain ⟨p, ls, s, hfolds, -, hresponse⟩ :=
      compile_declared_response [] (accounts name) {} [] compiled hcompiled
    obtain ⟨l, hroute, hl⟩ := hfolds.exists_lastWith_of_last [_] rfl "404" rfl
    obtain ⟨x, op, r, hx, hop, hr, -, -, htext, -⟩ := hresponse _ _ _ _ _
      { status := 404, description := "no \x60name\x60" } hl (by rw [hroute]; rfl)
    obtain rfl := Option.some.inj hx
    exact ⟨p, ls, s, op, r, hfolds, hop, hr, htext⟩
  obtain ⟨p, ls, s, op, r, hfolds, hop, hr, htext⟩ := hpublished "id" (by decide +kernel)
  obtain ⟨p', ls', s', op', r', hfolds', hop', hr', htext'⟩ := hpublished "name" (by decide +kernel)
  exact ⟨⟨p, ls, s, op, r, hfolds, hop, hr, htext.trans (by decide +kernel)⟩,
    p', ls', s', op', r', hfolds', hop', hr', htext'.trans (by decide +kernel)⟩

/-! ## inferred responses -/

/-- Each leaf of a path and method that has an inferred response for a status stands before one
that declares it. -/
def DeclaredAfter (ls : List Leaf) (k : PathKey) (m : Method) (status : String) : Prop :=
  ∀ i l, Stands ls k m i l → l.route.endpoint.declares status = false →
    (l.route.inferred? status).isSome → ∃ j l', i < j ∧ Stands ls k m j l' ∧
      l'.route.endpoint.declares status = true

/-- If a leaf of a path and method declares a status, the operation has a response for it, and
that is what the last of the leaves with one answers.  It is one that a leaf declares exactly if
every leaf with an inferred one stands before a leaf that declares it. -/
theorem compile_advisory_response (c : Catalog) (t : Tree) (info : Info) (servers : List Server)
    (compiled : Compiled) (h : compile c t info servers = .ok compiled) :
    ∃ p ls s, t.Folds c p ls s ∧ compiled.document.paths = p.paths ∧
      ∀ k m status,
        (∃ i l, Stands ls k m i l ∧ l.route.endpoint.declares status = true) →
        ∃ i l x op r, LastWith ls k m status i l ∧ (t.passages [])[i]? = some x ∧
          p.operationAt k m = some op ∧ l.route.Answers (s.registry.Gives c) status (some r) ∧
          op.responses.find? status = some (x.response status r) ∧
          (l.route.endpoint.declares status = true ↔ DeclaredAfter ls k m status) := by
  obtain ⟨p, ls, s, hfolds, hpaths⟩ := exists_folds h
  have hsome : ∀ {k m i l}, Stands ls k m i l → ∀ status,
      (l.operation.responses.find? status).isSome = l.route.speaks status :=
    fun hl => hfolds.isSome_responses (List.mem_of_getElem? hl.here)
  refine ⟨p, ls, s, hfolds, hpaths, fun k m status hdeclaring => ?_⟩
  obtain ⟨i, l, hl⟩ : ∃ i l, LastWith ls k m status i l := by
    obtain ⟨i, l, hl, hdeclares⟩ := hdeclaring
    exact exists_lastWith ⟨i, l, hl, by simp [hsome hl, Route.speaks, hdeclares]⟩
  obtain ⟨x, op, r, hx, hop, hr, hresponse⟩ := hfolds.find?_responses hl
  have hanswers := hfolds.answers l (List.mem_of_getElem? hl.here) status
  rw [hr] at hanswers
  refine ⟨i, l, x, op, r, hl, hx, hop, hanswers, hresponse, fun hdeclares => ?_, fun hafter => ?_⟩
  · -- no leaf after the last one has a response, so the others stand before it
    intro j l' hl' hsilent hinferred
    refine ⟨i, l, ?_, hl.toStands, hdeclares⟩
    rcases Nat.lt_trichotomy j i with hji | rfl | hij
    · exact hji
    · obtain rfl := Option.some.inj (hl.here.symm.trans hl'.here)
      simp [hdeclares] at hsilent
    · have hspeaks := hsome hl' status
      rw [hl.last j l' hij hl'] at hspeaks
      simp [Route.speaks, hsilent, hinferred] at hspeaks
  · by_contra hsilent
    rw [Bool.not_eq_true] at hsilent
    have hinferred : (l.route.inferred? status).isSome := by
      have hspeaks := hsome hl.toStands status
      simpa [hr, Route.speaks, hsilent] using hspeaks
    obtain ⟨j, l', hij, hl', hdeclares⟩ := hafter i l hl.toStands hsilent hinferred
    have hspeaks := hsome hl' status
    rw [hl.last j l' hij hl'] at hspeaks
    simp [Route.speaks, hdeclares] at hspeaks

/-- Reading an account whose number may name none; with a text for this case, or without one. -/
def readAccount (responses : List Respond) : Route :=
  ⟨[.segment "accounts", .capture "id" (.scalar .int) none], { method := .get, responses }⟩

/-- The same operation declared twice. -/
def readTwice (first second : List Respond) : Tree :=
  .alt (Tree.under (readAccount first).qualifiers (.leaf (readAccount first).endpoint))
    (Tree.under (readAccount second).qualifiers (.leaf (readAccount second).endpoint))

/-- A response that is no longer there. -/
def gone : Respond := { status := 404, description := "gone" }

/-- The text that was declared is kept if it comes last, and gives way to the inferred one if it
comes first. -/
theorem readTwice_advisory_response :
    (∃ p ls s op r, (readTwice [] [gone]).Folds [] p ls s ∧
      p.operationAt (readAccount []).key .get = some op ∧ op.responses.find? "404" = some r ∧
      r.description = "gone") ∧
    ∃ p ls s op r, (readTwice [gone] []).Folds [] p ls s ∧
      p.operationAt (readAccount []).key .get = some op ∧ op.responses.find? "404" = some r ∧
      r.description = "\x60id\x60 not found" := by
  have hpublished : ∀ first second,
      (compile [] (readTwice first second) {} []).toOption.isSome = true →
      (∃ (i : Nat) (r : Route), [readAccount first, readAccount second][i]? = some r ∧
        r.key = (readAccount []).key ∧ r.endpoint.method = Method.get ∧
        r.endpoint.declares "404" = true) →
      (readAccount second).speaks "404" = true →
      ∃ p ls s op r, (readTwice first second).Folds [] p ls s ∧
        p.operationAt (readAccount []).key .get = some op ∧ op.responses.find? "404" = some r ∧
        (readAccount second).Answers (s.registry.Gives []) "404" (some r) := by
    intro first second hok hdeclares hspeaks
    obtain ⟨compiled, hcompiled⟩ := isSome_toOption_iff.1 hok
    obtain ⟨p, ls, s, hfolds, -, hresponse⟩ :=
      compile_advisory_response [] (readTwice first second) {} [] compiled hcompiled
    have hflatten : (readTwice first second).flatten =
      .ok [readAccount first, readAccount second] := rfl
    have hstands : ∃ i l, Stands ls (readAccount []).key .get i l ∧
        l.route.endpoint.declares "404" = true := by
      obtain ⟨i, r, hr, hkey, hmethod, hr404⟩ := hdeclares
      obtain ⟨l, rfl, hl⟩ := hfolds.exists_stands hflatten hr
      exact ⟨i, l, ⟨hl.here, hkey, hmethod⟩, hr404⟩
    obtain ⟨i, l, x, op, r, hl, hx, hop, hanswers, hr, -⟩ := hresponse _ _ "404" hstands
    obtain ⟨l', hroute, hl'⟩ := hfolds.exists_lastWith_of_last [_] hflatten _ hspeaks
    obtain ⟨rfl, rfl⟩ := hl.unique hl'
    obtain rfl := Option.some.inj hx
    rw [hroute] at hanswers
    refine ⟨p, ls, s, op, r, hfolds, hop, hr.trans (congrArg some ?_), hanswers⟩
    exact congrArg (fun description => { r with description }) (renameText_nil r.description)
  constructor
  · obtain ⟨p, ls, s, op, r, hfolds, hop, hr, hanswers⟩ := hpublished [] [gone] (by decide +kernel)
      ⟨1, _, rfl, rfl, rfl, rfl⟩ rfl
    obtain ⟨content, -, hanswer⟩ := hanswers.exists_content (d := gone) rfl
    obtain rfl := Option.some.inj hanswer
    exact ⟨p, ls, s, op, _, hfolds, hop, hr, rfl⟩
  · obtain ⟨p, ls, s, op, r, hfolds, hop, hr, hanswers⟩ := hpublished [gone] [] (by decide +kernel)
      ⟨0, _, rfl, rfl, rfl, rfl⟩ rfl
    have hsilent : (readAccount []).endpoint.declares "404" = false := rfl
    refine ⟨p, ls, s, op, r, hfolds, hop, hr, ?_⟩
    cases hanswers with
    | declared d content hd => simp [Endpoint.declares, hd] at hsilent
    | own content headers hd hs => simp [Endpoint.declares, hs] at hsilent
    | inferred text hd htext => exact (Option.some.inj htext).symm

end ApiTree
