import ApiTree.Proofs.Schema.Naming

/-!
# ApiTree.Proofs.Schema.Listed

Schemas that list values (`Schema.Lists`): those of literal types and of enumerations.  Nothing
in them refers to another schema, and where they are equal by value they list the same
(`Schema.Lists.values_eq`).
-/

namespace ApiTree

namespace Json

/-- A label is a fixed value. -/
theorem isLiteral_of_isLabel {v : Json} (h : v.isLabel = true) : v.isLiteral = true := by
  cases v <;> simp_all [isLiteral, isLabel]

/-- Labels that are equal by value are the same. -/
theorem eq_of_looseEq_label {v w : Json} (hv : v.isLabel = true) (hw : w.isLabel = true)
    (h : v.looseEq w = true) : v = w := by
  cases v with
  | str s =>
      cases w with
      | str t => simpa [looseEq] using h
      | _ => simp [looseEq] at h
  | int m =>
      cases w with
      | int n =>
          simpa [looseEq, toNumber?, Number.same_iff, Number.place?, Number.Place.value] using h
      | str t => simp [looseEq, toNumber?] at h
      | _ => simp [isLabel] at hw
  | _ => simp [isLabel] at hv

/-- Labels that are found equal are the same. -/
theorem eq_of_looseEqList_labels {vs ws : List Json} (hvs : ∀ v ∈ vs, v.isLabel = true)
    (hws : ∀ w ∈ ws, w.isLabel = true) (h : looseEqList vs ws = true) : vs = ws := by
  obtain ⟨hlen, hitems⟩ := (looseEqList_iff vs ws).1 h
  refine List.ext_getElem hlen fun i hi hj => ?_
  have hv := List.getElem?_eq_getElem hi
  have hw := List.getElem?_eq_getElem hj
  exact eq_of_looseEq_label (hvs _ (List.mem_of_getElem? hv)) (hws _ (List.mem_of_getElem? hw))
    (hitems i _ _ hv hw)

end Json

namespace Schema

/-- After a text is set the keywords are old ones, or its. -/
theorem mem_of_mem_putText {s : Schema} {keyword : String} {text : Option String}
    {e : String × Json} (h : e ∈ putText s keyword text) :
    e ∈ s ∨ ∃ x, text = some x ∧ e = (keyword, .str x) := by
  cases text with
  | none => exact .inl h
  | some x => exact (Table.mem_of_mem_put h).imp_right fun heq => ⟨x, rfl, heq⟩

/-- Setting a text leaves every other keyword. -/
theorem find?_putText_of_ne (s : Schema) {keyword k : String} (text : Option String)
    (h : k ≠ keyword) : Table.find? (putText s keyword text) k = Table.find? s k := by
  cases text with
  | none => rfl
  | some x => exact Table.find?_put_of_ne _ _ h

/-- A schema that lists values, with the type that they share. -/
structure Lists (vs : List Json) (s : Schema) : Prop where
  values : Table.find? s "enum" = some (.arr vs)
  keywords : ∀ e ∈ s, e = ("enum", .arr vs) ∨
    (∃ word, sharedType? vs = some word ∧ e = ("type", .str word)) ∨
    ∃ text, e = ("title", .str text) ∨ e = ("description", .str text)

/-- The schema of fixed values lists them. -/
theorem lists_ofValues (vs : List Json) : Lists vs (ofValues vs) where
  values := by
    rw [ofValues, find?_putText_of_ne _ _ (by decide)]
    rfl
  keywords e he := by
    rcases mem_of_mem_putText he with he | ⟨word, hword, rfl⟩
    · exact .inl (List.mem_singleton.1 he)
    · exact .inr (.inl ⟨word, hword, rfl⟩)

namespace Lists

variable {vs ws : List Json} {s t : Schema}

/-- There is nothing to rename where values are listed. -/
theorem renamed {name : String → Option String} (h : Lists vs s)
    (hvs : ∀ v ∈ vs, v.isLiteral = true) :
    Reference.renamed name .schema (.obj s) = .obj s := by
  rw [Reference.renamed, Reference.renamedMembers_eq, Table.mapValues]
  refine congrArg _ ((List.map_congr_left fun e he => ?_).trans (List.map_id s))
  rcases h.keywords e he with rfl | ⟨word, -, rfl⟩ | ⟨text, rfl | rfl⟩
  · show ("enum", Json.arr (Reference.renamedItems name vs)) = _
    rw [Reference.renamedItems_of_literal hvs]
    rfl
  · rfl
  · rfl
  · rfl

/-- A schema that lists fixed values has no references. -/
theorem all_eq_nil (h : Lists vs s) (hvs : ∀ v ∈ vs, v.isLiteral = true) :
    Reference.all (.obj s) = [] := by
  refine List.eq_nil_iff_forall_not_mem.2 fun ref href => ?_
  obtain ⟨e, he, hmem⟩ := Reference.mem_allInMembers.1 href
  rcases h.keywords e he with rfl | ⟨word, -, rfl⟩ | ⟨text, rfl | rfl⟩
  · rcases hmem with ⟨hkey, -⟩ | hmem
    · simp at hkey
    · obtain ⟨v, hv, hmem⟩ := Reference.mem_allInItems.1 hmem
      have hliteral := hvs v hv
      cases v <;> simp_all [Reference.all, Json.isLiteral]
  all_goals simp [Reference.all] at hmem

/-- Without titles a schema lists the same values. -/
theorem untitled (h : Lists vs s) : Lists vs (untitled s) where
  values := (Table.find?_erase_of_ne s (by decide)).trans h.values
  keywords e he := h.keywords e (List.mem_of_mem_filter he)

/-- Schemas that are equal by value list the same. -/
theorem values_eq (hs : Lists vs s) (ht : Lists ws t) (hvs : ∀ v ∈ vs, v.isLabel = true)
    (hws : ∀ w ∈ ws, w.isLabel = true) (h : (Json.obj s).looseEq (.obj t) = true) : vs = ws := by
  obtain ⟨j, hj, hsame⟩ := ((Json.looseEq_obj_iff s t).1 h).1 _ _ hs.values
  obtain rfl : j = .arr ws := Option.some.inj (hj.symm.trans ht.values)
  exact Json.eq_of_looseEqList_labels hvs hws hsame

end Lists

end Schema

/-! ## enumerations -/

namespace Catalog

variable {c : Catalog} {i : Nat} {members : List (String × Json)} {base : Option EnumBase}

/-- The definition of an enumeration lists the values of its members. -/
theorem lists_definitionWith (hform : c.form i = .enum members base) (trim : Schema → Schema)
    (extra : Extra) : Schema.Lists (members.map (·.2)) (c.definitionWith trim extra i) := by
  have hbody : ∀ e ∈ Schema.ofMembers (members.map (·.2)), e = ("enum", .arr (members.map (·.2))) ∨
      ∃ word, Schema.sharedType? (members.map (·.2)) = some word ∧ e = ("type", .str word) := by
    intro e he
    rcases Schema.mem_of_mem_putText he with he | ⟨word, hword, rfl⟩
    · exact .inl (List.mem_singleton.1 he)
    · exact .inr ⟨word, (Option.filter_eq_some_iff.1 hword).1, rfl⟩
  simp only [definitionWith, hform]
  constructor
  · rw [Schema.find?_putText_of_ne _ _ (by decide), Table.find?_put_of_ne _ _ (by decide),
      Schema.ofMembers, Schema.find?_putText_of_ne _ _ (by decide)]
    rfl
  · intro e he
    rcases Schema.mem_of_mem_putText he with he | ⟨text, -, rfl⟩
    · rcases Table.mem_of_mem_put he with he | rfl
      · exact (hbody e he).imp_right .inl
      · exact .inr (.inr ⟨_, .inl rfl⟩)
    · exact .inr (.inr ⟨text, .inr rfl⟩)

end Catalog
end ApiTree
