import ApiTree.Document.Reading
import ApiTree.Document.Writing
import ApiTree.Proofs.Table.Merge

/-!
# ApiTree.Proofs.Document.Reading

What is read back from a document that was written.  A record is written without its members
that are void, and a member that is absent is read as its usual value.  Nothing is lost as long as
the usual value is the one that was void; this is so for texts, arrays and tables.  But a schema
that allows everything, a contact of which nothing is known and a body of which nothing is known
are written as empty objects, which are left out too, and read back as absent (`asRead`).

`member_present` says what is read for a member of a written record; each record follows from it
member by member.

* `Document.ofJson_toJson` — every document that is written can be read, and is read `asRead`.
-/

namespace ApiTree

/-! ## what is read back -/

/-- A schema that allows everything is void. -/
def Schema.present (s : Schema) : Bool := !s.isEmpty

/-- A content as it is read back. -/
def MediaType.asRead (m : MediaType) : MediaType where
  schema := m.schema.filter Schema.present

/-- A header as it is read back. -/
def HeaderObject.asRead (h : HeaderObject) : HeaderObject where
  description := h.description
  schema := h.schema.filter Schema.present

/-- A response as it is read back. -/
def Response.asRead (r : Response) : Response where
  description := r.description
  content := r.content.mapValues fun _ => MediaType.asRead
  headers := r.headers.mapValues fun _ => HeaderObject.asRead

/-- Whether anything is known of a body. -/
def RequestBody.present (b : RequestBody) : Bool :=
  b.description.isSome || !b.content.isEmpty || b.required.isSome

/-- A body as it is read back. -/
def RequestBody.asRead (b : RequestBody) : RequestBody where
  description := b.description
  content := b.content.mapValues fun _ => MediaType.asRead
  required := b.required

/-- A parameter as it is read back. -/
def Parameter.asRead (p : Parameter) : Parameter where
  name := p.name
  location := p.location
  required := p.required
  description := p.description
  schema := p.schema.filter Schema.present
  allowEmptyValue := p.allowEmptyValue

/-- An operation as it is read back. -/
def Operation.asRead (o : Operation) : Operation where
  tags := o.tags
  summary := o.summary
  description := o.description
  operationId := o.operationId
  parameters := o.parameters.map Parameter.asRead
  requestBody := (o.requestBody.filter RequestBody.present).map RequestBody.asRead
  responses := o.responses.mapValues fun _ => Response.asRead
  security := o.security

/-- A path as it is read back. -/
def PathItem.asRead (p : PathItem) : PathItem where
  get := p.get.map Operation.asRead
  put := p.put.map Operation.asRead
  post := p.post.map Operation.asRead
  delete := p.delete.map Operation.asRead
  options := p.options.map Operation.asRead
  head := p.head.map Operation.asRead
  patch := p.patch.map Operation.asRead
  trace := p.trace.map Operation.asRead

/-- Whether anything is known of a contact. -/
def Contact.present (c : Contact) : Bool := c != {}

/-- What an API is, as it is read back. -/
def Info.asRead (i : Info) : Info where
  title := i.title
  version := i.version
  description := i.description
  termsOfService := i.termsOfService
  contact := i.contact.filter Contact.present
  license := i.license

/-- A document as it is read back. -/
def Document.asRead (d : Document) : Document where
  openapi := d.openapi
  info := d.info.asRead
  servers := d.servers
  paths := d.paths.mapValues fun _ => PathItem.asRead
  components := d.components
  security := d.security
  tags := d.tags

/-! ## members of a written record -/

namespace Checked

variable {α β : Type}

/-- What is read well can be changed. -/
theorem map_good_of {f : α → β} {x : Checked α} {a : α} (hx : x = .good a) :
    f <$> x = .good (f a) := by rw [hx, map_good]

/-- Two members that are read well are read together. -/
theorem seq_good_of {f : Checked (α → β)} {x : Checked α} {g : α → β} {a : α}
    (hf : f = .good g) (hx : x = .good a) : (f <*> x : Checked β) = .good (g a) := by
  rw [hf, hx, seq_good]

/-- The members that a record is written with. -/
def present (kept : List String) (ms : Json.Members) : Json.Members :=
  ms.filter fun e => kept.contains e.1 || !e.2.isVoid

/-- A record with a member that is kept is not void. -/
theorem isVoid_presentMembers {kept : List String} {ms : Json.Members} {e : String × Json}
    (he : e ∈ ms) (hk : kept.contains e.1 = true) : (presentMembers kept ms).isVoid = false := by
  have hmem : e ∈ present kept ms := List.mem_filter.2 ⟨he, by rw [hk]; rfl⟩
  exact List.isEmpty_eq_false_iff_exists_mem.2 ⟨e, hmem⟩

/-- Among some members, `v` stands under the name `n`, and nothing under the names `ns`. -/
def Carries (ms : Json.Members) (n : String) (ns : List String) (v : Json) : Prop :=
  (n :: ns).map (fun k => ms.filter (·.1 == k)) = [(n, v)] :: ns.map fun _ => []

/-- Under a name counts the first member of the name. -/
theorem find?_eq_head? (ms : Json.Members) (n : String) :
    Table.find? ms n = ((ms.filter (·.1 == n)).head?).map (·.2) := by
  induction ms with
  | nil => rfl
  | cons e ms ih =>
      rw [Table.find?_cons, List.filter_cons, BEq.comm]
      split
      · rfl
      · exact ih

/-- Leaving members out does not bring any under a name. -/
theorem filter_present (kept : List String) (ms : Json.Members) (n : String) :
    (present kept ms).filter (·.1 == n) = present kept (ms.filter (·.1 == n)) := by
  simp only [present, List.filter_filter, Bool.and_comm]

/-- No member is found where none of the names is there. -/
theorem found?_eq_none {ms : Json.Members} {ns : List String}
    (h : ∀ n ∈ ns, Table.find? ms n = none) : found? ms ns = none := by
  induction ns with
  | nil => rfl
  | cons n ns ih =>
      rw [found?, h n List.mem_cons_self]
      exact ih fun k hk => h k (List.mem_cons_of_mem _ hk)

section Member

variable {kept ns : List String} {ms : Json.Members} {n : String} {v : Json}

/-- What is written under a name is found under it, unless it is left out as void. -/
theorem found?_present (h : Carries ms n ns v) :
    found? (present kept ms) (n :: ns) =
      if (kept.contains n || !v.isVoid) = true then some (n, v) else none := by
  obtain ⟨hn, hns⟩ := List.cons.inj h
  replace hn : ms.filter (·.1 == n) = [(n, v)] := hn
  have hrest : found? (present kept ms) ns = none := found?_eq_none fun k hk => by
    rw [find?_eq_head?, filter_present, List.map_inj_left.1 hns k hk]
    rfl
  rw [found?, find?_eq_head?, filter_present, hn, hrest, present, List.filter_cons]
  by_cases hv : (kept.contains n || !v.isVoid) = true
  · rw [if_pos hv, if_pos hv]
    rfl
  · rw [if_neg hv, if_neg hv]
    rfl

/-- A member is read back if its value can be read wherever it is written, and is the usual one
where it is not. -/
theorem member_present {f : Json → Checked α} {usual a : α} (h : Carries ms n ns v)
    (hread : kept.contains n = true ∨ v.isVoid = false → f v = .good a)
    (hvoid : kept.contains n = false → v.isVoid = true → usual = a) :
    member (present kept ms) (n :: ns) f usual = .good a := by
  rw [member, found?_present h]
  cases hk : kept.contains n <;> cases hv : v.isVoid
  · simp [hread (.inr hv)]
  · simp [hvoid hk hv, pure]
  · simp [hread (.inl hk)]
  · simp [hread (.inl hk)]

/-- A required member that is written and not void is read back. -/
theorem required_present {f : Json → Checked α} {a : α} (h : Carries ms n ns v)
    (hv : v.isVoid = false) (hread : f v = .good a) :
    required (present kept ms) (n :: ns) f = .good a := by
  rw [required, found?_present h]
  simp [hv, hread]

end Member

/-! ## kinds of members -/

/-- What is not void is read as a member that is there. -/
theorem optional_of_written {f : Json → Checked α} {v : Json} (h : v.isVoid = false) :
    optional f v = some <$> f v := by
  cases v <;> first | rfl | simp [Json.isVoid] at h

section Kinds

variable {kept ns : List String} {ms : Json.Members} {n : String}

section Optional

variable {write : α → Json} {read : Json → Checked β} {back : α → β} {o : Option α}

/-- An optional member is read back as what reading makes of its written form. -/
theorem optionalMember_present (hread : ∀ a, read (write a) = .good (back a))
    (hvoid : ∀ a ∈ o, (write a).isVoid = false)
    (h : Carries ms n ns ((o.map write).getD .null)) :
    member (present kept ms) (n :: ns) (optional read) none = .good (o.map back) := by
  cases o with
  | none => exact member_present h (fun _ => rfl) fun _ _ => rfl
  | some a =>
      have hv := hvoid a rfl
      have hwritten : optional read (write a) = .good (some (back a)) := by
        rw [optional_of_written hv, hread, map_good]
      exact member_present h (fun _ => hwritten) fun _ hv' => absurd (hv.symm.trans hv') (by simp)

/-- A value that may be void is read back unless it is. -/
theorem voidableMember_present {whole : α → Bool} (hread : ∀ a, read (write a) = .good (back a))
    (hvoid : ∀ a, (write a).isVoid = !whole a) (hk : kept.contains n = false)
    (h : Carries ms n ns ((o.map write).getD .null)) :
    member (present kept ms) (n :: ns) (optional read) none =
      .good ((o.filter whole).map back) := by
  cases o with
  | none => exact member_present h (fun _ => rfl) fun _ _ => rfl
  | some a =>
      have hv := hvoid a
      rw [Option.filter_some]
      cases hw : whole a with
      | true => exact optionalMember_present hread (by rintro _ ⟨⟩; rw [hv, hw]; rfl) h
      | false =>
          -- the value is void and the name is not kept, so nothing is written
          rw [hw] at hv
          refine member_present h (fun hwritten => ?_) fun _ _ => rfl
          rcases hwritten with hkept | hwritten
          · rw [hk] at hkept
            cases hkept
          · exact absurd (hv.symm.trans hwritten) (by simp)

/-- A member that is written as void when it says nothing is read back without that. -/
theorem voidableMember_same {read : Json → Checked α} {whole : α → Bool}
    (hread : ∀ a, read (write a) = .good a) (hvoid : ∀ a, (write a).isVoid = !whole a)
    (hk : kept.contains n = false) (h : Carries ms n ns ((o.map write).getD .null)) :
    member (present kept ms) (n :: ns) (optional read) none = .good (o.filter whole) :=
  (voidableMember_present hread hvoid hk h).trans (by rw [Option.map_id'])

end Optional

/-- A word with a usual value is read back. -/
theorem wordMember_present {s usual : String} (h : Carries ms n ns (.str s)) :
    member (present kept ms) (n :: ns) text usual = .good s :=
  member_present h (fun _ => rfl) (by simp [Json.isVoid])

/-- A required word is read back. -/
theorem requiredWord_present {s : String} (h : Carries ms n ns (.str s)) :
    required (present kept ms) (n :: ns) text = .good s :=
  required_present h rfl rfl

/-- An optional text is read back. -/
theorem textMember_present {s : Option String} (h : Carries ms n ns (optionalText s)) :
    textMember (present kept ms) (n :: ns) = .good s := by
  cases s with
  | none => exact member_present h (fun _ => rfl) fun _ _ => rfl
  | some s => exact member_present h (fun _ => rfl) (by simp [optionalText, Json.isVoid])

/-- An optional truth value is read back. -/
theorem truthMember_present {b : Option Bool} (h : Carries ms n ns (optionalBool b)) :
    truthMember (present kept ms) (n :: ns) = .good b := by
  cases b with
  | none => exact member_present h (fun _ => rfl) fun _ _ => rfl
  | some b => exact member_present h (fun _ => rfl) (by simp [optionalBool, Json.isVoid])

/-- A schema is read back unless it is empty. -/
theorem schemaMember_present {s : Option Schema} (hk : kept.contains "schema" = false)
    (h : Carries ms "schema" ["schema_"] (optionalSchema s)) :
    schemaMember (present kept ms) = .good (s.filter Schema.present) := by
  have hs : optionalSchema s = (s.map Json.obj).getD .null := by cases s <;> rfl
  rw [hs] at h
  have hvoid : ∀ x : Schema, (Json.obj x).isVoid = !x.present := fun x => (Bool.not_not _).symm
  exact voidableMember_same (fun _ => rfl) hvoid hk h

end Kinds

/-! ## lists and tables -/

/-- A list of which each element is read well is read well. -/
theorem all_map_good {f : α → Checked β} {g : α → β} {xs : List α}
    (h : ∀ x ∈ xs, f x = .good (g x)) : all (xs.map f) = .good (xs.map g) := by
  induction xs with
  | nil => rfl
  | cons x xs ih =>
      rw [List.map_cons, List.map_cons, all, h x List.mem_cons_self,
        ih fun y hy => h y (List.mem_cons_of_mem _ hy)]
      rfl

section Collections

variable {write : α → Json} {read : Json → Checked β} {back : α → β}

/-- Elements are read one by one; the numbers that they are read under would only be seen in
what is wrong with them. -/
theorem items_written (hread : ∀ x, read (write x) = .good (back x)) (xs : List α) :
    items read (.arr (xs.map write)) = .good (xs.map back) := by
  have hall : all ((xs.zipIdx).map fun e => (read (write e.1)).under (toString e.2)) =
      .good (xs.zipIdx.map fun e => back e.1) :=
    all_map_good fun e _ => by rw [hread, under_good]
  have hback : xs.zipIdx.map (fun e => back e.1) = xs.map back := by
    conv_rhs => rw [← List.zipIdx_map_fst 0 xs, List.map_map]
    rfl
  rw [hback] at hall
  rw [← hall]
  show all _ = all _
  rw [List.zipIdx_map, List.map_map]
  rfl

/-- A table is read back value by value. -/
theorem members_written (hread : ∀ x, read (write x) = .good (back x)) (t : Table String α) :
    members read (tableJson write t) = .good (t.mapValues fun _ => back) := by
  have hall : all (t.map fun e => ((e.1, ·) <$> read (write e.2)).under e.1) =
      .good (t.map fun e => (e.1, back e.2)) :=
    all_map_good fun e _ => by rw [hread, map_good, under_good]
  rw [Table.mapValues, ← hall]
  show all _ = all _
  rw [List.map_map]
  rfl

variable {kept ns : List String} {ms : Json.Members} {n : String}

/-- A list is read back item by item. -/
theorem itemsMember_present {xs : List α} (hread : ∀ x, read (write x) = .good (back x))
    (h : Carries ms n ns (.arr (xs.map write))) :
    member (present kept ms) (n :: ns) (items read) [] = .good (xs.map back) :=
  member_present h (fun _ => items_written hread xs) fun _ hv => by
    rw [List.map_eq_nil_iff.1 (List.isEmpty_iff.1 hv), List.map_nil]

/-- A member that is a table is read back value by value. -/
theorem tableMember_present {t : Table String α} (hread : ∀ x, read (write x) = .good (back x))
    (h : Carries ms n ns (tableJson write t)) :
    member (present kept ms) (n :: ns) (members read) [] = .good (t.mapValues fun _ => back) :=
  member_present h (fun _ => members_written hread t) fun _ hv => by
    rw [List.map_eq_nil_iff.1 (List.isEmpty_iff.1 hv)]
    rfl

theorem itemsMember_same {read : Json → Checked α} {xs : List α}
    (hread : ∀ x, read (write x) = .good x) (h : Carries ms n ns (.arr (xs.map write))) :
    member (present kept ms) (n :: ns) (items read) [] = .good xs :=
  (itemsMember_present hread h).trans (by rw [List.map_id'])

theorem members_same {read : Json → Checked α} (hread : ∀ x, read (write x) = .good x)
    (t : Table String α) : members read (tableJson write t) = .good t :=
  (members_written hread t).trans (by rw [Table.mapValues_eq_self fun _ _ => rfl])

theorem tableMember_same {read : Json → Checked α} {t : Table String α}
    (hread : ∀ x, read (write x) = .good x) (h : Carries ms n ns (tableJson write t)) :
    member (present kept ms) (n :: ns) (members read) [] = .good t :=
  (tableMember_present hread h).trans (by rw [Table.mapValues_eq_self fun _ _ => rfl])

end Collections

end Checked

/-! ## records -/

open Checked

/-- A contact is read back as it is. -/
theorem Contact.ofJson_toJson (x : Contact) : Contact.ofJson x.toJson = .good x := by
  obtain ⟨name, url, email⟩ := x
  exact seq_good_of (seq_good_of (map_good_of (textMember_present rfl)) (textMember_present rfl))
    (textMember_present rfl)

/-- A contact is void exactly if it says nothing. -/
theorem Contact.isVoid_toJson (x : Contact) : x.toJson.isVoid = !x.present := by
  obtain ⟨name, url, email⟩ := x
  cases name <;> cases url <;> cases email <;> rfl

/-- A licence is read back as it is. -/
theorem License.ofJson_toJson (x : License) : License.ofJson x.toJson = .good x := by
  obtain ⟨name, url⟩ := x
  exact seq_good_of (map_good_of (requiredWord_present rfl)) (textMember_present rfl)

/-- The account of an interface is read back without a contact that says nothing. -/
theorem Info.ofJson_toJson (x : Info) : Info.ofJson x.toJson = .good x.asRead := by
  have hlicense : ∀ o : Option License, (o.map fun x => x) = o := fun o => Option.map_id'
  rw [Info.asRead, ← hlicense x.license]
  exact seq_good_of (seq_good_of (seq_good_of (seq_good_of (seq_good_of (map_good_of
    (wordMember_present rfl)) (wordMember_present rfl)) (textMember_present rfl))
    (textMember_present rfl))
    (voidableMember_same Contact.ofJson_toJson Contact.isVoid_toJson rfl rfl))
    (optionalMember_present License.ofJson_toJson (fun _ _ => rfl) rfl)

/-- A server is read back as it is. -/
theorem Server.ofJson_toJson (x : Server) : Server.ofJson x.toJson = .good x := by
  obtain ⟨url, description⟩ := x
  exact seq_good_of (map_good_of (requiredWord_present rfl)) (textMember_present rfl)

/-- A tag is read back as it is. -/
theorem Tag.ofJson_toJson (x : Tag) : Tag.ofJson x.toJson = .good x := by
  obtain ⟨name, description⟩ := x
  exact seq_good_of (map_good_of (requiredWord_present rfl)) (textMember_present rfl)

/-- A security scheme is read back as it is. -/
theorem SecurityScheme.ofJson_toJson (x : SecurityScheme) :
    SecurityScheme.ofJson x.toJson = .good x := by
  obtain ⟨type, scheme, bearerFormat, description, name, location⟩ := x
  refine seq_good_of (seq_good_of (seq_good_of (seq_good_of (seq_good_of (map_good_of
    (requiredWord_present rfl)) ?_) ?_) ?_) ?_) ?_ <;> exact textMember_present rfl

/-- A media type is read back without an empty schema. -/
theorem MediaType.ofJson_toJson (x : MediaType) : MediaType.ofJson x.toJson = .good x.asRead := by
  rw [MediaType.asRead]
  exact map_good_of (schemaMember_present rfl rfl)

/-- A header is read back without an empty schema. -/
theorem HeaderObject.ofJson_toJson (x : HeaderObject) :
    HeaderObject.ofJson x.toJson = .good x.asRead := by
  rw [HeaderObject.asRead]
  exact seq_good_of (map_good_of (textMember_present rfl)) (schemaMember_present rfl rfl)

/-- A response is read back without the empty schemas in it. -/
theorem Response.ofJson_toJson (x : Response) : Response.ofJson x.toJson = .good x.asRead := by
  rw [Response.asRead]
  exact seq_good_of (seq_good_of (map_good_of (wordMember_present rfl))
    (tableMember_present MediaType.ofJson_toJson rfl))
    (tableMember_present HeaderObject.ofJson_toJson rfl)

/-- A request body is read back without the empty schemas in it. -/
theorem RequestBody.ofJson_toJson (x : RequestBody) :
    RequestBody.ofJson x.toJson = .good x.asRead := by
  rw [RequestBody.asRead]
  exact seq_good_of (seq_good_of (map_good_of (textMember_present rfl))
    (tableMember_present MediaType.ofJson_toJson rfl)) (truthMember_present rfl)

/-- A request body is void exactly if it says nothing. -/
theorem RequestBody.isVoid_toJson (x : RequestBody) : x.toJson.isVoid = !x.present := by
  obtain ⟨description, content, required⟩ := x
  cases description <;> cases content <;> cases required <;> rfl

/-- A parameter is read back without an empty schema. -/
theorem Parameter.ofJson_toJson (x : Parameter) : Parameter.ofJson x.toJson = .good x.asRead := by
  rw [Parameter.asRead]
  exact seq_good_of (seq_good_of (seq_good_of (seq_good_of (seq_good_of (map_good_of
    (requiredWord_present rfl)) (requiredWord_present rfl)) (truthMember_present rfl))
    (textMember_present rfl)) (schemaMember_present rfl rfl)) (truthMember_present rfl)

/-- A security requirement is read back as it is. -/
theorem SecurityRequirement.ofJson_toJson (x : SecurityRequirement) :
    SecurityRequirement.ofJson x.toJson = .good x := by
  have htext : ∀ s, text (.str s) = .good s := fun _ => rfl
  have hscopes : ∀ scopes, items text (textsArray scopes) = .good scopes :=
    fun scopes => (items_written htext scopes).trans (by rw [List.map_id'])
  exact members_same hscopes x

/-- An operation is read back without the empty schemas in it. -/
theorem Operation.ofJson_toJson (x : Operation) : Operation.ofJson x.toJson = .good x.asRead := by
  rw [Operation.asRead]
  refine seq_good_of (seq_good_of (seq_good_of (seq_good_of (seq_good_of (seq_good_of
    (seq_good_of (map_good_of (itemsMember_same (fun _ => rfl) rfl)) (textMember_present rfl))
    (textMember_present rfl)) (textMember_present rfl))
    (itemsMember_present Parameter.ofJson_toJson rfl))
    (voidableMember_present RequestBody.ofJson_toJson RequestBody.isVoid_toJson rfl rfl))
    (tableMember_present Response.ofJson_toJson rfl)) ?_
  exact itemsMember_same SecurityRequirement.ofJson_toJson rfl

/-- An operation is written with its responses in any case. -/
theorem Operation.isVoid_toJson (x : Operation) : x.toJson.isVoid = false :=
  isVoid_presentMembers (e := ("responses", tableJson Response.toJson x.responses)) (by simp) rfl

/-- A path item is read back without the empty schemas in it. -/
theorem PathItem.ofJson_toJson (x : PathItem) : PathItem.ofJson x.toJson = .good x.asRead := by
  have hmember : ∀ m : Method, member (present [] (Method.all.map fun m =>
      (m.name, ((x.operation m).map Operation.toJson).getD .null))) [m.name]
      (optional Operation.ofJson) none = .good ((x.operation m).map Operation.asRead) := by
    intro m
    refine optionalMember_present Operation.ofJson_toJson (fun o _ => o.isVoid_toJson) ?_
    cases m <;> rfl
  rw [PathItem.asRead]
  exact seq_good_of (seq_good_of (seq_good_of (seq_good_of (seq_good_of (seq_good_of (seq_good_of
    (map_good_of (hmember .get)) (hmember .put)) (hmember .post)) (hmember .delete))
    (hmember .options)) (hmember .head)) (hmember .patch)) (hmember .trace)

/-- Components are read back as they are. -/
theorem Components.ofJson_toJson (x : Components) : Components.ofJson x.toJson = .good x := by
  obtain ⟨schemas, securitySchemes⟩ := x
  exact seq_good_of (map_good_of (tableMember_same (fun _ => rfl) rfl))
    (tableMember_same SecurityScheme.ofJson_toJson rfl)

/-- Components that are left out as void are none. -/
theorem Components.eq_of_isVoid {x : Components} (h : x.toJson.isVoid = true) : {} = x := by
  obtain ⟨_ | _, _ | _⟩ := x
  · rfl
  all_goals cases h

/-- A document that is written can be read again, and is read as `asRead` says. -/
theorem Document.ofJson_toJson (x : Document) : Document.ofJson x.toJson = .good x.asRead := by
  rw [Document.asRead]
  refine seq_good_of (seq_good_of (seq_good_of (seq_good_of (seq_good_of (seq_good_of
    (map_good_of (wordMember_present rfl)) ?_)
    (itemsMember_same Server.ofJson_toJson rfl)) (tableMember_present PathItem.ofJson_toJson rfl))
    ?_) (itemsMember_same SecurityRequirement.ofJson_toJson rfl))
    (itemsMember_same Tag.ofJson_toJson rfl)
  · exact member_present rfl (fun _ => Info.ofJson_toJson x.info) fun _ hv => by cases hv
  · -- components are left out if there are none, which is what is read then
    exact member_present rfl (fun _ => Components.ofJson_toJson x.components)
      fun _ hv => Components.eq_of_isVoid hv

end ApiTree
