import ApiTree.Proofs.Compilation.Captures
import ApiTree.Proofs.Compilation.Links
import ApiTree.Proofs.Document.Reading

/-!
# ApiTree.Proofs.Compilation.Written

Which documents of trees are read back from their written form as they are.  A record is read
back as it is exactly when none of its schemas allows everything, no body is one of which nothing
is known, and its contact, if there is one, is not empty.  The bodies of a tree that compiles
are always said to be required or not, so of these the schemas and the contact remain.

* `compile_read_back` — the document of a tree can always be read back, and is read back as it
  is exactly when its contact is not empty and its operations have no empty schema.
-/

namespace ApiTree

/-! ## documents that lose nothing -/

theorem map_eq_self_iff {α : Type} {f : α → α} {xs : List α} :
    xs.map f = xs ↔ ∀ x ∈ xs, f x = x := by
  have h := List.map_inj_left (f := f) (g := id) (l := xs)
  rwa [List.map_id] at h

theorem Table.mapValues_eq_self_iff {α : Type} {f : α → α} {t : Table String α} :
    (t.mapValues fun _ => f) = t ↔ ∀ e ∈ t, f e.2 = e.2 := by
  rw [mapValues, map_eq_self_iff]
  simp only [Prod.ext_iff, true_and]

theorem filter_present_eq_self_iff (s : Option Schema) :
    s.filter Schema.present = s ↔ s ≠ some [] := by
  rcases s with _ | _ | _ <;> simp [Schema.present]

theorem MediaType.asRead_eq_self_iff (x : MediaType) : x.asRead = x ↔ x.schema ≠ some [] := by
  obtain ⟨schema⟩ := x
  rw [asRead, mk.injEq, filter_present_eq_self_iff]

theorem HeaderObject.asRead_eq_self_iff (x : HeaderObject) :
    x.asRead = x ↔ x.schema ≠ some [] := by
  obtain ⟨description, schema⟩ := x
  rw [asRead, mk.injEq, filter_present_eq_self_iff, eq_self, true_and]

theorem Parameter.asRead_eq_self_iff (x : Parameter) : x.asRead = x ↔ x.schema ≠ some [] := by
  obtain ⟨name, location, required, description, schema, allowEmptyValue⟩ := x
  simp only [asRead, mk.injEq, filter_present_eq_self_iff, true_and, and_true]

/-- A part of a list has no empty schema if no element has one. -/
theorem nil_not_mem_filterMap_iff {α : Type} {f : α → Option Schema} {xs : List α} :
    [] ∉ xs.filterMap f ↔ ∀ x ∈ xs, f x ≠ some [] := by
  simp only [List.mem_filterMap, not_exists, not_and, ne_eq]

theorem content_asRead_eq_self_iff (t : Table String MediaType) :
    (t.mapValues fun _ => MediaType.asRead) = t ↔ [] ∉ contentSchemas t := by
  rw [Table.mapValues_eq_self_iff, contentSchemas, nil_not_mem_filterMap_iff]
  simp only [MediaType.asRead_eq_self_iff]

theorem Response.asRead_eq_self_iff (x : Response) : x.asRead = x ↔ [] ∉ x.schemas := by
  obtain ⟨description, content, headers⟩ := x
  rw [asRead, mk.injEq, schemas, List.mem_append, not_or, content_asRead_eq_self_iff,
    Table.mapValues_eq_self_iff, nil_not_mem_filterMap_iff]
  simp only [HeaderObject.asRead_eq_self_iff, true_and]

theorem RequestBody.asRead_eq_self_iff (x : RequestBody) :
    x.asRead = x ↔ [] ∉ contentSchemas x.content := by
  obtain ⟨description, content, required⟩ := x
  simp only [asRead, mk.injEq, content_asRead_eq_self_iff, true_and, and_true]

/-- Where something is known of the body, an operation loses nothing but empty schemas. -/
theorem Operation.asRead_eq_self_iff {x : Operation}
    (h : ∀ b, x.requestBody = some b → b.present = true) : x.asRead = x ↔ [] ∉ x.schemas := by
  obtain ⟨tags, summary, description, operationId, parameters, body, responses, security⟩ := x
  have hbody : (body.filter RequestBody.present).map RequestBody.asRead = body ↔
      [] ∉ body.toList.flatMap fun b => contentSchemas b.content := by
    cases body with
    | none => simp
    | some b => simp [Option.filter_some, h b rfl, RequestBody.asRead_eq_self_iff]
  have hresponses : (responses.mapValues fun _ => Response.asRead) = responses ↔
      [] ∉ responses.flatMap fun e => e.2.schemas := by
    rw [Table.mapValues_eq_self_iff]
    simp only [Response.asRead_eq_self_iff, List.mem_flatMap, not_exists, not_and]
  have hparameters : parameters.map Parameter.asRead = parameters ↔
      [] ∉ parameters.filterMap (·.schema) := by
    rw [map_eq_self_iff, nil_not_mem_filterMap_iff]
    simp only [Parameter.asRead_eq_self_iff]
  simp only [asRead, mk.injEq, hbody, hresponses, hparameters, schemas, requestSchemas,
    List.mem_append, not_or, true_and, and_true, and_assoc]

namespace PathItem

/-- The operations of a path item are read back one by one. -/
theorem operation_asRead (x : PathItem) (m : Method) :
    x.asRead.operation m = (x.operation m).map Operation.asRead := by
  cases m <;> rfl

/-- A path is known by its operations. -/
theorem eq_of_operation {x y : PathItem} (h : ∀ m, x.operation m = y.operation m) : x = y := by
  obtain ⟨⟩ := x
  obtain ⟨⟩ := y
  rw [mk.injEq]
  exact ⟨h .get, h .put, h .post, h .delete, h .options, h .head, h .patch, h .trace⟩

/-- The operations of a path item are those under the methods. -/
theorem mem_operations_iff {x : PathItem} {m : Method} {op : Operation} :
    (m, op) ∈ x.operations ↔ x.operation m = some op := by
  refine ⟨mem_operations, fun h => List.mem_filterMap.2 ⟨m, ?_, by rw [h]; rfl⟩⟩
  cases m <;> decide

theorem asRead_eq_self_iff (x : PathItem) :
    x.asRead = x ↔ ∀ e ∈ x.operations, e.2.asRead = e.2 := by
  constructor
  · intro h e he
    have hop := mem_operations_iff.1 he
    have hread := x.operation_asRead e.1
    rw [h, hop] at hread
    exact (Option.some.inj hread).symm
  · intro h
    refine eq_of_operation fun m => ?_
    rw [operation_asRead]
    cases hop : x.operation m with
    | none => rfl
    | some op => rw [Option.map_some, h (m, op) (mem_operations_iff.2 hop)]

end PathItem

theorem Info.asRead_eq_self_iff (x : Info) : x.asRead = x ↔ x.contact ≠ some {} := by
  obtain ⟨title, version, description, termsOfService, contact, license⟩ := x
  have hcontact : contact.filter Contact.present = contact ↔ contact ≠ some {} := by
    cases contact with
    | none => simp
    | some x => simp [Option.filter_some, Contact.present]
  simp only [asRead, mk.injEq, hcontact, true_and, and_true]

/-- Where something is known of the bodies, a document loses nothing but an empty contact and
empty schemas of its operations. -/
theorem Document.asRead_eq_self_iff {x : Document}
    (h : ∀ e ∈ x.paths, ∀ y ∈ e.2.operations, ∀ b, y.2.requestBody = some b → b.present = true) :
    x.asRead = x ↔ x.info.contact ≠ some {} ∧
      ∀ e ∈ x.paths, ∀ y ∈ e.2.operations, [] ∉ y.2.schemas := by
  obtain ⟨openapi, info, servers, paths, components, security, tags⟩ := x
  have hpaths : (paths.mapValues fun _ => PathItem.asRead) = paths ↔
      ∀ e ∈ paths, ∀ y ∈ e.2.operations, [] ∉ y.2.schemas := by
    rw [Table.mapValues_eq_self_iff]
    refine forall₂_congr fun e he => ?_
    rw [PathItem.asRead_eq_self_iff]
    exact forall₂_congr fun y hy => Operation.asRead_eq_self_iff (h e he y hy)
  simp only [asRead, mk.injEq, Info.asRead_eq_self_iff, hpaths, true_and, and_true]

/-! ## documents of trees -/

/-- The body of an operation, if nothing is known of it. -/
def Operation.voidBodies (op : Operation) : List RequestBody :=
  op.requestBody.toList.filter fun b => !b.present

/-- A body that is not void says something. -/
theorem Operation.present_of_voidBodies {op : Operation} (h : op.voidBodies = []) {b : RequestBody}
    (hb : op.requestBody = some b) : b.present = true := by
  have hmem := List.filter_eq_nil_iff.1 h b (Option.mem_toList.2 hb)
  simpa using hmem

/-- Bodies on both sides are put together to one that is said to be required or not. -/
theorem Operation.mem_voidBodies_united (a b : Operation) (x : RequestBody)
    (h : x ∈ (a.united b).voidBodies) : x ∈ a.voidBodies ∨ x ∈ b.voidBodies := by
  obtain ⟨hx, hvoid⟩ := List.mem_filter.1 h
  replace hx : unitedBodies a.requestBody b.requestBody = some x := Option.mem_toList.1 hx
  have hpart : ∀ op : Operation, op.requestBody = some x → x ∈ op.voidBodies :=
    fun op hop => List.mem_filter.2 ⟨Option.mem_toList.2 hop, hvoid⟩
  -- where there is a body on one side only it is taken as it is
  cases ha : a.requestBody <;> cases hb : b.requestBody <;>
    simp only [ha, hb, unitedBodies, Option.or_some, Option.or_none, Option.some.injEq,
      reduceCtorEq] at hx
  · exact .inr (hpart b (hx ▸ hb))
  · exact .inl (hpart a (hx ▸ ha))
  · subst hx
    simp [RequestBody.present] at hvoid

/-- The body of a qualifier says something. -/
theorem Qualifier.present_of_body? {q : Qualifier} {schema : Schema} {b : RequestBody}
    (h : q.body? schema = some b) : b.present = true := by
  cases q <;> simp only [body?, Option.some.injEq, reduceCtorEq] at h
  subst h
  simp [RequestBody.present]

/-- The body of a route by itself is said to be required. -/
theorem voidBodies_of_leaf {c : Catalog} {r : Route} {l : Leaf} {s s' : Collected}
    (h : (leaf c r).run s = .ok (l, s')) : l.operation.voidBodies = [] := by
  obtain ⟨es, responses, _, -, -, -, rfl⟩ := leaf_ok h
  refine List.filter_eq_nil_iff.2 fun b hb => ?_
  rcases Gathered.body_reading (Option.mem_toList.1 hb) with hnone | ⟨e, -, he⟩
  · cases hnone
  · simp [Qualifier.present_of_body? he]

/-- Something is known of every body in the document of a tree. -/
theorem Tree.Folds.present_of_paths {c : Catalog} {t : Tree} {p : Partial} {ls : List Leaf}
    {s : Collected} (h : t.Folds c p ls s) : ∀ e ∈ p.paths, ∀ y ∈ e.2.operations,
      ∀ b, y.2.requestBody = some b → b.present = true := by
  intro e he y hy b hb
  refine Operation.present_of_voidBodies (List.eq_nil_iff_forall_not_mem.2 fun x hx => ?_) hb
  -- merging brings no body of which nothing is known, so one would be that of a leaf
  have hleaf : x ∈ ls.flatMap fun l => l.operation.voidBodies :=
    h.summarizes.2.mem_paths rfl (fun _ => rfl) (fun _ _ => rfl) Operation.mem_voidBodies_united
      (List.mem_flatMap.2 ⟨e, he, List.mem_flatMap.2 ⟨y, hy, hx⟩⟩)
  obtain ⟨l, hl, hx⟩ := List.mem_flatMap.1 hleaf
  rw [forall_mem_leaves (fun _ _ _ _ => voidBodies_of_leaf) h.leaves l hl] at hx
  cases hx

/-- A document that is compiled has the given account. -/
theorem info_of_compile {c : Catalog} {t : Tree} {info : Info} {servers : List Server}
    {compiled : Compiled} (h : compile c t info servers = .ok compiled) :
    compiled.document.info = info := by
  obtain ⟨_, _, h⟩ := bind_eq_ok_iff.1 h
  obtain rfl := pure_eq_ok_iff.1 h
  rfl

/-- The document of a tree can be read back from its written form.  It is read as it was exactly
when its contact is not empty and no schema in its operations allows everything; else these are
lost, and nothing but these. -/
theorem compile_read_back (c : Catalog) (t : Tree) (info : Info) (servers : List Server)
    (compiled : Compiled) (h : compile c t info servers = .ok compiled) :
    Document.ofJson compiled.document.toJson = .good compiled.document.asRead ∧
    (Document.ofJson compiled.document.toJson = .good compiled.document ↔
      info.contact ≠ some {} ∧
        ∀ e ∈ compiled.document.paths, ∀ y ∈ e.2.operations, [] ∉ y.2.schemas) := by
  obtain ⟨p, ls, s, hfolds, hpaths⟩ := exists_folds h
  have hbodies := hfolds.present_of_paths
  rw [← hpaths] at hbodies
  refine ⟨compiled.document.ofJson_toJson, ?_⟩
  rw [compiled.document.ofJson_toJson, Checked.good.injEq, Document.asRead_eq_self_iff hbodies,
    info_of_compile h]

/-- Answering with a type. -/
def answering (t : Ty) : Tree := .leaf { method := .get, returns := t }

/-- An answer that is a text is read back; one that may be anything loses its schema. -/
theorem answering_read_back :
    (∃ compiled, compile [] (answering (.scalar .str)) {} [] = .ok compiled ∧
      Document.ofJson compiled.document.toJson = .good compiled.document) ∧
    ∃ compiled, compile [] (answering (.scalar .any)) {} [] = .ok compiled ∧
      Document.ofJson compiled.document.toJson = .good compiled.document.asRead ∧
      Document.ofJson compiled.document.toJson ≠ .good compiled.document := by
  constructor
  · have hok : (compile [] (answering (.scalar .str)) {} []).toOption.any (fun compiled =>
        compiled.document.paths.all fun e => e.2.operations.all fun y =>
          y.2.schemas.all fun x => !x.isEmpty) = true := by decide +kernel
    obtain ⟨compiled, hcompiled, hschemas⟩ := (Option.any_eq_true _ _).1 hok
    have h := toOption_eq_some_iff.1 hcompiled
    refine ⟨compiled, h, (compile_read_back [] _ {} [] compiled h).2.2 ⟨by decide, ?_⟩⟩
    intro e he y hy hnil
    have hx := List.all_eq_true.1 (List.all_eq_true.1 (List.all_eq_true.1 hschemas e he) y hy)
    exact absurd (hx [] hnil) (by decide)
  · have hok : (compile [] (answering (.scalar .any)) {} []).toOption.any (fun compiled =>
        compiled.document.paths.any fun e => e.2.operations.any fun y =>
          y.2.schemas.any fun x => x.isEmpty) = true := by decide +kernel
    obtain ⟨compiled, hcompiled, hschemas⟩ := (Option.any_eq_true _ _).1 hok
    have h := toOption_eq_some_iff.1 hcompiled
    obtain ⟨hread, hsame⟩ := compile_read_back [] _ {} [] compiled h
    refine ⟨compiled, h, hread, fun hlost => ?_⟩
    obtain ⟨e, he, hy⟩ := List.any_eq_true.1 hschemas
    obtain ⟨y, hy, hx⟩ := List.any_eq_true.1 hy
    obtain ⟨x, hx, hnil⟩ := List.any_eq_true.1 hx
    exact (hsame.1 hlost).2 e he y hy (List.isEmpty_iff.1 hnil ▸ hx)

end ApiTree
