import ApiTree.Proofs.Shape.Heads

/-!
# ApiTree.Proofs.Shape.References

A reference at the top of a schema.  In the schema of a shape it is a text, and so it is in each
of its alternatives, which stand for themselves (`Schema.Worded`, `Shape.worded_schema`).  The
definition of a declared type has one exactly if the type holds nothing but another one
(`Catalog.has_definitionWith_iff`).
-/

namespace ApiTree

namespace Schema

variable {s : Schema} {k : String} {v : Json}

/-- A reference at the top of a schema is a text. -/
def RefersByText (s : Schema) : Prop := ∀ v, Table.find? s "$ref" = some v → ∃ text, v = .str text

/-- The alternatives of a schema stand for themselves, and refer by texts. -/
def Worded (s : Schema) : Prop :=
  ∀ a ∈ alternatives s, ∃ x, a = .obj x ∧ alternatives x = [.obj x] ∧ RefersByText x

/-- A schema without a reference at its top refers by text. -/
theorem refersByText_of_not_mem (h : "$ref" ∉ Table.keys s) : RefersByText s := by
  intro v hv
  rw [(Table.find?_eq_none_iff _ _).2 h] at hv
  simp at hv

/-- A schema that is its only alternative is worded if it refers by text. -/
theorem Worded.of_alone (h : alternatives s = [.obj s]) (hs : RefersByText s) : Worded s := by
  intro a ha
  rw [h, List.mem_singleton] at ha
  exact ⟨s, ha, h, hs⟩

/-- A worded schema refers by text. -/
theorem Worded.refersByText (h : Worded s) : RefersByText s := by
  rcases alternatives_cases s with ⟨xs, rfl, -⟩ | hs
  · exact refersByText_of_not_mem (by simp)
  · obtain ⟨x, hx, -, htext⟩ := h (.obj s) (by simp [hs])
    rwa [Json.obj.inj hx]

/-- A schema that says something else than its alternatives stands for itself. -/
theorem alternatives_of_mem (hk : k ≠ "anyOf") (h : k ∈ Table.keys s) :
    alternatives s = [.obj s] := by
  rcases alternatives_cases s with ⟨xs, rfl, -⟩ | hs
  · exact absurd (List.mem_singleton.1 h) hk
  · exact hs

/-- A schema with another keyword than `anyOf` and no reference is worded. -/
theorem worded_of_mem (hk : k ≠ "anyOf") (h : k ∈ Table.keys s) (href : "$ref" ∉ Table.keys s) :
    Worded s :=
  .of_alone (alternatives_of_mem hk h) (refersByText_of_not_mem href)

theorem worded_nil : Worded [] := .of_alone rfl (refersByText_of_not_mem (by simp))

/-- Setting another keyword than `anyOf` and `$ref` keeps a schema worded. -/
theorem Worded.put (h : Worded s) (hany : k ≠ "anyOf") (href : k ≠ "$ref") (v : Json) :
    Worded (Table.put s k v) := by
  refine .of_alone (alternatives_of_mem hany ((Table.mem_keys_put _ _ _ _).2 (.inr rfl))) ?_
  intro w hw
  rw [Table.find?_put_of_ne _ _ href.symm] at hw
  exact h.refersByText w hw

/-- Setting a text where there is one keeps a schema worded. -/
theorem Worded.putText (h : Worded s) (hany : k ≠ "anyOf") (href : k ≠ "$ref") (x : Option String) :
    Worded (s.putText k x) := by
  cases x with
  | none => exact h
  | some x => exact h.put hany href _

/-- Setting a number where there is one keeps a schema worded. -/
theorem Worded.putNumber (h : Worded s) (hany : k ≠ "anyOf") (href : k ≠ "$ref")
    (n : Option Number) : Worded (s.putNumber k n) := by
  cases n with
  | none => exact h
  | some n => exact h.put hany href _

/-- Setting a number takes no keyword away. -/
theorem mem_keys_putNumber (h : k ∈ Table.keys s) (keyword : String) (n : Option Number) :
    k ∈ Table.keys (s.putNumber keyword n) := by
  cases n with
  | none => exact h
  | some n => exact (Table.mem_keys_put _ _ _ _).2 (.inl h)

/-- Setting a text leaves the other keywords. -/
theorem has_putText_of_ne (s : Schema) {k k' : String} (x : Option String) (h : k' ≠ k) :
    Table.has (s.putText k x) k' = Table.has s k' := by
  cases x with
  | none => rfl
  | some x => exact Table.has_put_of_ne s _ h

theorem worded_ofType (name : String) : Worded (ofType name) :=
  worded_of_mem (k := "type") (by decide) (by simp [ofType]) (by simp [ofType])

theorem worded_ofFormat (format : String) : Worded (ofFormat format) :=
  worded_of_mem (k := "type") (by decide) (by simp [ofFormat, ofType]) (by simp [ofFormat, ofType])

theorem worded_ofValues (vs : List Json) : Worded (ofValues vs) :=
  Worded.putText (worded_of_mem (k := "enum") (by decide) (by simp) (by simp))
    (by decide) (by decide) _

theorem worded_ofMembers (vs : List Json) : Worded (ofMembers vs) :=
  Worded.putText (worded_of_mem (k := "enum") (by decide) (by simp) (by simp))
    (by decide) (by decide) _

theorem worded_arrayOf (s : Schema) (unique : Bool) : Worded (arrayOf s unique) := by
  refine worded_of_mem (k := "type") (by decide) (by simp [arrayOf]) ?_
  cases unique <;> simp [arrayOf]

theorem worded_rowOf (ss : List Schema) : Worded (rowOf ss) := by
  refine worded_of_mem (k := "type") (by decide) (by simp [rowOf]) ?_
  cases ss <;> simp [rowOf]

theorem worded_entriesOf (keys values : Schema) : Worded (entriesOf keys values) := by
  refine worded_of_mem (k := "type") (by decide) (by simp [entriesOf]) ?_
  rw [entriesOf]
  intro hmem
  simp only [Table.keys, List.map_append, List.mem_append] at hmem
  rcases hmem with (hmem | hmem) | hmem
  · simp at hmem
  · split at hmem <;> simp at hmem
  · split at hmem <;> simp at hmem

theorem worded_oneOf (property : String) (members : List (List Json × Schema)) :
    Worded (oneOf property members) :=
  worded_of_mem (k := "oneOf") (by decide) (by simp [oneOf]) (by simp [oneOf])

theorem worded_nullable (s : Schema) : Worded (nullable s) := by
  have href : "$ref" ∉ Table.keys (nullable s) := by
    rw [← Table.has_iff_mem_keys, not_has_nullable]
    exact Bool.false_ne_true
  refine worded_of_mem (k := "nullable") (by decide) ?_ href
  rw [nullable]
  split
  · simp
  · exact (Table.mem_keys_put _ _ _ _).2 (.inr rfl)

/-- A union has alternatives of its members, and is the one alternative if there is no other. -/
theorem worded_anyOf {ss : List Schema} (h : ∀ s ∈ ss, Worded s) : Worded (anyOf ss) := by
  have hall : ∀ a ∈ latest (ss.flatMap alternatives),
      ∃ x, a = .obj x ∧ alternatives x = [.obj x] ∧ RefersByText x := by
    intro a ha
    obtain ⟨s, hs, ha⟩ := List.mem_flatMap.1 (latest_subset _ ha)
    exact h s hs a ha
  rw [anyOf]
  split
  · next s heq =>
      obtain ⟨x, hx, halone, htext⟩ := hall (.obj s) (by simp [heq])
      obtain rfl := Json.obj.inj hx
      exact .of_alone halone htext
  · exact hall

end Schema

/-! ## schemas of shapes -/

open Schema (Worded)

theorem Bounds.worded_writeTo {s : Schema} (h : Worded s) (b : Bounds) : Worded (b.writeTo s) := by
  have hmultiple := h.putNumber (k := "multipleOf") (by decide) (by decide) b.multipleOf
  have hmaximum := hmultiple.putNumber (k := "maximum") (by decide) (by decide) b.le
  have hbelow := hmaximum.putNumber (k := "exclusiveMaximum") (by decide) (by decide) b.lt
  have hminimum := hbelow.putNumber (k := "minimum") (by decide) (by decide) b.ge
  exact hminimum.putNumber (by decide) (by decide) b.gt

theorem Size.worded_writeTo {s : Schema} (h : Worded s) (z : Size) {what : String}
    (hwhat : what ∈ ["Length", "Items", "Properties"]) : Worded (z.writeTo what s) := by
  have hkeys : ("min" ++ what ≠ "anyOf" ∧ "min" ++ what ≠ "$ref") ∧
      "max" ++ what ≠ "anyOf" ∧ "max" ++ what ≠ "$ref" := by
    simp only [List.mem_cons, List.not_mem_nil, or_false] at hwhat
    rcases hwhat with rfl | rfl | rfl <;> decide
  exact (h.putNumber hkeys.1.1 hkeys.1.2 _).putNumber hkeys.2.1 hkeys.2.2 _

/-- Writing bounds takes no keyword away. -/
theorem Bounds.mem_keys_writeTo {s : Schema} {k : String} (h : k ∈ Table.keys s) (b : Bounds) :
    k ∈ Table.keys (b.writeTo s) := by
  rw [writeTo]
  iterate 5 refine Schema.mem_keys_putNumber ?_ _ _
  exact h

theorem Numeric.worded_schema (b : Bounds) (k : Numeric) : Worded (k.schema b) := by
  cases k with
  | int => exact b.worded_writeTo (Schema.worded_ofType "integer")
  | float => exact b.worded_writeTo (Schema.worded_ofType "number")
  | decimal =>
      intro a ha
      have hcases : a = .obj (b.asDoubles.writeTo (Schema.ofType "number")) ∨
          a = .obj (Schema.ofType "string") := by
        simpa [Numeric.schema, Schema.alternatives] using ha
      rcases hcases with rfl | rfl
      · have htype : "type" ∈ Table.keys (b.asDoubles.writeTo (Schema.ofType "number")) :=
          b.asDoubles.mem_keys_writeTo (by simp [Schema.ofType])
        exact ⟨_, rfl, Schema.alternatives_of_mem (by decide) htype,
          (b.asDoubles.worded_writeTo (Schema.worded_ofType "number")).refersByText⟩
      · exact ⟨_, rfl, rfl, (Schema.worded_ofType "string").refersByText⟩

theorem worded_reference (name : String) : Worded (Reference.schema name) := by
  have hfind : Table.find? (Reference.schema name) "$ref" =
      some (.str (Reference.pathTo name)) := rfl
  exact .of_alone rfl fun v hv => ⟨_, Option.some.inj (hv.symm.trans hfind)⟩

namespace Shape

mutual

/-- A reference at the top of the schema of a shape is a text. -/
theorem worded_schema (s : Shape) : Worded s.schema := by
  cases s with
  | any => exact Schema.worded_nil
  | null => exact Schema.worded_ofType "null"
  | bool => exact Schema.worded_ofType "boolean"
  | uuid => exact Schema.worded_ofFormat "uuid"
  | number k b => exact k.worded_schema b
  | moment k b => exact Schema.worded_ofFormat k.format
  | text size p =>
      exact (size.worded_writeTo (Schema.worded_ofType "string") (by simp)).putText
        (by decide) (by decide) p
  | bytes size => exact size.worded_writeTo (Schema.worded_ofFormat "binary") (by simp)
  | literal vs => exact Schema.worded_ofValues vs
  | gathered k size s => exact size.worded_writeTo (Schema.worded_arrayOf _ _) (by simp)
  | sequence s => exact Schema.worded_arrayOf _ _
  | row size ss => exact size.worded_writeTo (Schema.worded_rowOf _) (by simp)
  | entries size k v => exact size.worded_writeTo (Schema.worded_entriesOf _ _) (by simp)
  | declared u => exact worded_reference u.name
  | nullable s => exact Schema.worded_nullable _
  | union ss => exact Schema.worded_anyOf (worded_schemas ss)
  | tagged property members => exact Schema.worded_oneOf _ _
  | limited l s =>
      have hany : l.keyword s.isListed ≠ "anyOf" := by
        cases l <;> cases s.isListed <;> simp [Limit.keyword]
      exact (worded_schema s).put hany (keyword_ne _ l) l.value
  | patterned p s => exact worded_schema s
  | said title description s =>
      exact ((worded_schema s).putText (by decide) (by decide) title).putText
        (by decide) (by decide) description

/-- The schemas of shapes are worded. -/
theorem worded_schemas (ss : List Shape) : ∀ s ∈ schemas ss, Worded s := by
  cases ss with
  | nil => simp [schemas]
  | cons s ss => exact List.forall_mem_cons.2 ⟨worded_schema s, worded_schemas ss⟩

end

end Shape

/-! ## definitions -/

namespace Catalog

variable {c : Catalog}

/-- A declared type holds nothing but another one, so that its definition is a reference. -/
def Forwards (c : Catalog) (i : Nat) : Prop :=
  ∃ t, c.form i = .root t ∧ Table.has (c.rootShape t).schema "$ref" = true

/-- A schema of fields has no reference at its top. -/
theorem not_has_fieldsSchema (trim : Schema → Schema) (fs : List FieldDecl) (shown : Json → Bool)
    (extra : Extra) :
    Table.has (c.fieldsSchema trim fs shown ++ extra.schema) "$ref" = false := by
  rw [fieldsSchema]
  split <;> cases extra <;> rfl

/-- A schema of fields is worded. -/
theorem worded_fieldsSchema (trim : Schema → Schema) (fs : List FieldDecl) (shown : Json → Bool)
    (extra : Extra) : Worded (c.fieldsSchema trim fs shown ++ extra.schema) := by
  refine Schema.worded_of_mem (k := "type") (by decide) (by simp [fieldsSchema, Table.keys]) ?_
  rw [← Table.has_iff_mem_keys, not_has_fieldsSchema]
  exact Bool.false_ne_true

/-- The definition of a declared type is a reference exactly if the type forwards. -/
theorem has_definitionWith_iff (trim : Schema → Schema) (extra : Extra) (i : Nat) :
    Table.has (c.definitionWith trim extra i) "$ref" = true ↔ c.Forwards i := by
  rw [definitionWith, Schema.has_putText_of_ne _ _ (by decide),
    Table.has_put_of_ne _ _ (by decide), Forwards]
  cases c.form i with
  | model fs own title asText => simp [not_has_fieldsSchema]
  | root t => simp
  | record fs => simp [not_has_fieldsSchema]
  | enum members base =>
      have hnot : Table.has (Schema.ofMembers (members.map (·.2))) "$ref" = false :=
        (Schema.has_putText_of_ne _ _ (by decide)).trans rfl
      simp [hnot]
  | opaqueClass => simp [Table.has]

/-- A reference at the top of a definition is a text. -/
theorem worded_definitionWith (trim : Schema → Schema) (extra : Extra) (i : Nat) :
    Worded (c.definitionWith trim extra i) := by
  rw [definitionWith]
  refine Worded.putText (Worded.put ?_ (by decide) (by decide) _) (by decide) (by decide) _
  cases c.form i with
  | model fs own title asText => exact worded_fieldsSchema _ _ _ _
  | root t => exact Shape.worded_schema _
  | record fs => exact worded_fieldsSchema _ _ _ _
  | enum members base => exact Schema.worded_ofMembers _
  | opaqueClass => exact Schema.worded_nil

end Catalog
end ApiTree
