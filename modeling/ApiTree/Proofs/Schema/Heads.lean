import ApiTree.Proofs.Schema.Alternatives

/-!
# ApiTree.Proofs.Schema.Heads

The declared types that a value refers to by their working names (`Json.heads`), and what putting
schemas together adds to them: nothing.
-/

namespace ApiTree

theorem subset_of_eq {α : Type} {xs ys : List α} (h : xs = ys) : xs ⊆ ys := h ▸ List.Subset.refl xs

/-- More elements bring more of what comes with each. -/
theorem flatMap_subset_flatMap {α β : Type} (f : α → List β) {xs ys : List α} (h : xs ⊆ ys) :
    xs.flatMap f ⊆ ys.flatMap f := by
  intro b hb
  obtain ⟨a, ha, hb⟩ := List.mem_flatMap.1 hb
  exact List.mem_flatMap.2 ⟨a, h ha, hb⟩

/-! ## values -/

namespace Json

/-- The declared types that a value refers to by working names. -/
def heads (j : Json) : List Nat :=
  ((Reference.all j).filterMap fun ref => (Reference.target? ref).bind Use.ofName?).map (·.index)

/-- The declared types that a member of an object refers to. -/
def headsUnder (e : String × Json) : List Nat := heads (.obj [e])

variable {s s' : Schema} {k : String} {i : Nat}

/-- An object refers to what its members refer to. -/
theorem heads_obj (s : Schema) : heads (.obj s) = s.flatMap headsUnder := by
  induction s with
  | nil => rfl
  | cons e s ih =>
      rw [List.flatMap_cons, ← ih, headsUnder]
      simp only [heads, Reference.all, Reference.allInMembers, List.append_nil,
        List.filterMap_append, List.map_append]

/-- A list refers to what its items refer to. -/
theorem heads_arr (xs : List Json) : heads (.arr xs) = xs.flatMap heads := by
  induction xs with
  | nil => rfl
  | cons x xs ih =>
      rw [List.flatMap_cons, ← ih]
      simp only [heads, Reference.all, Reference.allInItems, List.filterMap_append, List.map_append]

/-- Under another keyword than `$ref` a member refers to what its value refers to. -/
theorem headsUnder_of_ne (v : Json) (h : k ≠ "$ref") : headsUnder (k, v) = heads v := by
  simp only [headsUnder, heads, Reference.all, Reference.allInMembers, List.append_nil]
  cases v <;> simp [h]

/-- As a reference a member refers to at least as much. -/
theorem headsUnder_subset (k : String) (v : Json) : headsUnder (k, v) ⊆ headsUnder ("$ref", v) := by
  by_cases h : k = "$ref"
  · rw [h]
    exact List.Subset.refl _
  · rw [headsUnder_of_ne v h, heads, headsUnder, heads, Reference.all, Reference.allInMembers_cons,
      List.append_assoc, List.filterMap_append, List.filterMap_append, List.map_append,
      List.map_append]
    exact List.subset_append_of_subset_right _ (List.subset_append_left _ _)

@[simp] theorem headsUnder_obj (k : String) (s : Schema) :
    headsUnder (k, .obj s) = heads (.obj s) := by
  simp only [headsUnder, heads, Reference.all, Reference.allInMembers, List.append_nil,
    List.nil_append]

@[simp] theorem headsUnder_arr (k : String) (xs : List Json) :
    headsUnder (k, .arr xs) = heads (.arr xs) := by
  simp only [headsUnder, heads, Reference.all, Reference.allInMembers, List.append_nil,
    List.nil_append]

@[simp] theorem headsUnder_number (k : String) (n : Number) : headsUnder (k, n.toJson) = [] := by
  cases n <;> rfl

@[simp] theorem headsUnder_int (k : String) (n : Int) : headsUnder (k, .int n) = [] := rfl

@[simp] theorem headsUnder_bool (k : String) (b : Bool) : headsUnder (k, .bool b) = [] := rfl

/-- A text refers to nothing but under `$ref`. -/
theorem headsUnder_text (x : String) (h : k ≠ "$ref") : headsUnder (k, .str x) = [] :=
  headsUnder_of_ne (.str x) h

theorem heads_mono (h : s' ⊆ s) : heads (.obj s') ⊆ heads (.obj s) := by
  rw [heads_obj, heads_obj]
  exact flatMap_subset_flatMap _ h

/-- A keyword that is set adds at most what its value refers to. -/
theorem heads_put (s : Schema) (k : String) (v : Json) :
    heads (.obj (Table.put s k v)) ⊆ heads (.obj s) ++ headsUnder (k, v) := by
  intro i hi
  rw [heads_obj] at hi ⊢
  obtain ⟨e, he, hi⟩ := List.mem_flatMap.1 hi
  rw [List.mem_append]
  rcases Table.mem_of_mem_put he with he | rfl
  · exact .inl (List.mem_flatMap.2 ⟨e, he, hi⟩)
  · exact .inr hi

/-- A member that refers to nothing adds nothing. -/
theorem heads_put_of_nil (s : Schema) {v : Json} (h : headsUnder (k, v) = []) :
    heads (.obj (Table.put s k v)) ⊆ heads (.obj s) := by
  simpa [h] using heads_put s k v

theorem heads_erase (s : Schema) (k : String) : heads (.obj (Table.erase s k)) ⊆ heads (.obj s) :=
  heads_mono fun _ => List.mem_of_mem_filter

end Json

/-! ## schemas put together -/

namespace Schema

open Json (heads)

variable {k : String}

theorem heads_putText (s : Schema) (x : Option String) (h : k ≠ "$ref") :
    heads (.obj (putText s k x)) ⊆ heads (.obj s) := by
  cases x with
  | none => exact List.Subset.refl _
  | some x => exact Json.heads_put_of_nil s (Json.headsUnder_text x h)

theorem heads_putNumber (s : Schema) (k : String) (n : Option Number) :
    heads (.obj (putNumber s k n)) ⊆ heads (.obj s) := by
  cases n with
  | none => exact List.Subset.refl _
  | some n => exact Json.heads_put_of_nil s (Json.headsUnder_number k n)

theorem heads_ofType (name : String) : heads (.obj (ofType name)) = [] :=
  Json.headsUnder_text name (by decide)

/-- A schema that also admits null refers to what the schema refers to. -/
theorem heads_nullable (s : Schema) : heads (.obj (nullable s)) ⊆ heads (.obj s) := by
  rw [nullable]
  split
  · simp [Json.heads_obj, Json.heads_arr]
  · exact Json.heads_put_of_nil s rfl

/-- An enumeration refers to what its values refer to. -/
theorem heads_ofValues (vs : List Json) : heads (.obj (ofValues vs)) ⊆ vs.flatMap heads := by
  rw [← Json.heads_arr, ← Json.headsUnder_arr "enum"]
  exact heads_putText (k := "type") [("enum", .arr vs)] _ (by decide)

/-- A declared enumeration refers to what its values refer to. -/
theorem heads_ofMembers (vs : List Json) : heads (.obj (ofMembers vs)) ⊆ vs.flatMap heads := by
  rw [← Json.heads_arr, ← Json.headsUnder_arr "enum"]
  exact heads_putText (k := "type") [("enum", .arr vs)] _ (by decide)

/-- Taken apart into its alternatives, a schema refers to what it refers to as a whole. -/
theorem heads_alternatives (s : Schema) : (alternatives s).flatMap heads = heads (.obj s) := by
  rcases alternatives_cases s with ⟨xs, rfl, hs⟩ | hs
  · rw [hs, ← Json.heads_arr, ← Json.headsUnder_arr "anyOf"]
    rfl
  · rw [hs, List.flatMap_singleton]

theorem latest_subset (xs : List Json) : latest xs ⊆ xs := by
  suffices hfold : ∀ kept : List Json, xs.foldl keep kept ⊆ kept ++ xs from hfold []
  induction xs with
  | nil => simp
  | cons x xs ih =>
      intro kept
      refine List.Subset.trans (ih (keep kept x)) ?_
      rw [List.append_cons]
      refine List.append_subset.2 ⟨fun a ha => List.mem_append_left _ ?_,
        List.subset_append_right _ _⟩
      rw [keep] at ha
      split at ha
      · obtain ⟨b, hb, rfl⟩ := List.mem_map.1 ha
        split
        · exact List.mem_append_right _ (List.mem_singleton_self x)
        · exact List.mem_append_left _ hb
      · exact ha

/-- What is left when repeated values are dropped refers to nothing new. -/
theorem heads_latest (xs : List Json) : (latest xs).flatMap heads ⊆ xs.flatMap heads :=
  flatMap_subset_flatMap _ (latest_subset xs)

/-- A choice of schemas refers to what they refer to. -/
theorem heads_anyOf (ss : List Schema) :
    heads (.obj (anyOf ss)) ⊆ ss.flatMap fun s => heads (.obj s) := by
  have hlatest := heads_latest (ss.flatMap alternatives)
  rw [List.flatMap_assoc] at hlatest
  simp only [heads_alternatives] at hlatest
  rw [anyOf]
  split
  · next s heq => simpa [heq] using hlatest
  · simpa [Json.heads_obj, Json.heads_arr] using hlatest

/-- An array refers to what its items refer to. -/
theorem heads_arrayOf (s : Schema) (unique : Bool) :
    heads (.obj (arrayOf s unique)) = heads (.obj s) := by
  have htype : Json.headsUnder ("type", .str "array") = [] := Json.headsUnder_text _ (by decide)
  cases unique <;> simp [arrayOf, Json.heads_obj, htype]

/-- A row refers to what its places refer to. -/
theorem heads_rowOf (ss : List Schema) :
    heads (.obj (rowOf ss)) ⊆ ss.flatMap fun s => heads (.obj s) := by
  have htype : Json.headsUnder ("type", .str "array") = [] := Json.headsUnder_text _ (by decide)
  cases ss with
  | nil => simp [rowOf, Json.heads_obj, htype]
  | cons s ss => simp [rowOf, Json.heads_obj, htype, Json.heads_arr, List.flatMap_map]

/-- A map refers to what its keys and its values refer to. -/
theorem heads_entriesOf (keys values : Schema) :
    heads (.obj (entriesOf keys values)) ⊆ heads (.obj keys) ++ heads (.obj values) := by
  have htype : Json.headsUnder ("type", .str "object") = [] := Json.headsUnder_text _ (by decide)
  have hvalues := Json.heads_erase values "title"
  have hkeys : heads (.obj (Table.erase (if Table.has keys "$ref" then keys
      else (Table.erase keys "pattern").erase "title") "type")) ⊆ heads (.obj keys) := by
    refine List.Subset.trans (Json.heads_erase _ _) ?_
    split
    · exact List.Subset.refl _
    · exact List.Subset.trans (Json.heads_erase _ _) (Json.heads_erase _ _)
  rw [entriesOf]
  generalize (if Table.has keys "$ref" = true then keys
    else (Table.erase keys "pattern").erase "title") = shown at hkeys ⊢
  rw [Json.heads_obj, List.flatMap_append, List.flatMap_append, List.flatMap_singleton, htype,
    List.nil_append]
  refine List.append_subset.2 ⟨List.subset_append_of_subset_right _ ?_,
    List.subset_append_of_subset_left _ ?_⟩
  · split
    · simpa [Json.heads_obj] using hvalues
    · split <;> simp_all
  · split
    · simpa using hkeys
    · simp

/-- A union whose members are told apart refers to what its members refer to, in the mapping from
their values too. -/
theorem heads_oneOf (property : String) (members : List (List Json × Schema)) :
    heads (.obj (oneOf property members)) ⊆ members.flatMap fun m => heads (.obj m.2) := by
  rw [oneOf]
  generalize hof : Table.ofList (members.flatMap _ : List (String × Schema)) = choices
  have hchoices : ∀ e ∈ choices, heads (.obj e.2) ⊆ members.flatMap fun m => heads (.obj m.2) := by
    intro e he i hi
    obtain ⟨m, hm, he⟩ := List.mem_flatMap.1 (Table.mem_of_mem_ofList (hof ▸ he))
    obtain ⟨v, -, rfl⟩ := List.mem_map.1 he
    exact List.mem_flatMap.2 ⟨m, hm, hi⟩
  -- a value is mapped to the reference that its member is, or to the member
  have hmapped : ∀ (k : String) (s : Schema),
      Json.headsUnder (k, (Table.find? s "$ref").getD (.obj s)) ⊆ heads (.obj s) := by
    intro k s
    cases hfind : Table.find? s "$ref" with
    | none => simp
    | some v =>
        refine List.Subset.trans (Json.headsUnder_subset k v) (Json.heads_mono fun e he => ?_)
        rw [List.mem_singleton.1 he]
        exact Table.mem_of_find? hfind
  have hname : Json.headsUnder ("propertyName", .str property) = [] :=
    Json.headsUnder_text _ (by decide)
  simp only [Json.heads_obj, List.flatMap_cons, List.flatMap_nil, List.append_nil,
    Json.headsUnder_arr, Json.headsUnder_obj, Json.heads_arr, hname, List.nil_append]
  refine List.append_subset.2 ⟨List.Subset.trans (heads_latest _) ?_, ?_⟩
  · intro i hi
    obtain ⟨x, hx, hi⟩ := List.mem_flatMap.1 hi
    obtain ⟨e, he, rfl⟩ := List.mem_map.1 hx
    simpa [Json.heads_obj] using hchoices e he hi
  · intro i hi
    obtain ⟨x, hx, hi⟩ := List.mem_flatMap.1 hi
    obtain ⟨e, he, rfl⟩ := List.mem_map.1 hx
    simpa [Json.heads_obj] using hchoices e he (hmapped e.1 e.2 hi)

end Schema
end ApiTree
