import ApiTree.Proofs.Conformance.Satisfaction
import ApiTree.Proofs.Schema.Derivation

/-!
# ApiTree.Proofs.Shape.Bounds

What bounds on an integer type come to in its schema.  Each note puts its bounds into the shape,
where one takes the place of an earlier one of its kind (`Bounds.withAll`).  The schema that is
derived has the bounds under their keywords, so an integer keeps the schema exactly if it keeps
the bounds (`Catalog.exists_derived_bounds`).
-/

namespace ApiTree

/-- A constraint is a bound, by an integer. -/
def Limit.IsBound : Limit → Prop
  | .gt n | .ge n | .lt n | .le n => ∃ k : ℤ, n = .int k
  | _ => False

/-- A note gives bounds by integers, and beside them at most a title and a description. -/
structure Note.GivesBounds (n : Note) : Prop where
  bounds : ∀ l ∈ n.limits, l.IsBound
  whole : ∀ spec, n = .field spec → spec.discriminator = none

namespace Bounds

/-- The bounds with some more, one after the other. -/
def withAll (b : Bounds) (ls : List Limit) : Bounds := ls.foldl (fun b l => (b.with? l).getD b) b

/-- The bounds that notes give. -/
def ofNotes (notes : List Note) : Bounds := ({} : Bounds).withAll (notes.flatMap Note.limits)

/-- All bounds are integers, and there is no divisor. -/
structure Whole (b : Bounds) : Prop where
  gt : ∀ n, b.gt = some n → ∃ k : ℤ, n = .int k
  ge : ∀ n, b.ge = some n → ∃ k : ℤ, n = .int k
  lt : ∀ n, b.lt = some n → ∃ k : ℤ, n = .int k
  le : ∀ n, b.le = some n → ∃ k : ℤ, n = .int k
  multipleOf : b.multipleOf = none

/-- An integer keeps the bounds. -/
structure Admits (b : Bounds) (n : ℤ) : Prop where
  gt : ∀ k, b.gt = some (.int k) → k < n
  ge : ∀ k, b.ge = some (.int k) → k ≤ n
  lt : ∀ k, b.lt = some (.int k) → n < k
  le : ∀ k, b.le = some (.int k) → n ≤ k

/-- Between two integers that keep the bounds every integer does. -/
theorem Admits.between {b : Bounds} {low n high : ℤ} (hlow : b.Admits low) (hhigh : b.Admits high)
    (h : low ≤ n ∧ n ≤ high) : b.Admits n where
  gt k hk := (hlow.gt k hk).trans_le h.1
  ge k hk := (hlow.ge k hk).trans h.1
  lt k hk := h.2.trans_lt (hhigh.lt k hk)
  le k hk := h.2.trans (hhigh.le k hk)

theorem whole_empty : Whole {} := by
  constructor <;> simp

/-- One more whole bound keeps bounds whole. -/
theorem Whole.with? {b : Bounds} (hb : b.Whole) {l : Limit} (hl : l.IsBound) :
    ((b.with? l).getD b).Whole := by
  cases l with
  | gt n => exact { hb with gt := fun m hm => Option.some.inj hm ▸ hl }
  | ge n => exact { hb with ge := fun m hm => Option.some.inj hm ▸ hl }
  | lt n => exact { hb with lt := fun m hm => Option.some.inj hm ▸ hl }
  | le n => exact { hb with le := fun m hm => Option.some.inj hm ▸ hl }
  | _ => exact hl.elim

/-- More whole bounds keep bounds whole. -/
theorem Whole.withAll {b : Bounds} (hb : b.Whole) {ls : List Limit} (hls : ∀ l ∈ ls, l.IsBound) :
    (b.withAll ls).Whole := by
  induction ls generalizing b with
  | nil => exact hb
  | cons l ls ih =>
      exact ih (hb.with? (hls l List.mem_cons_self)) fun m hm => hls m (List.mem_cons_of_mem _ hm)

/-- Notes that give whole bounds give whole bounds together. -/
theorem whole_ofNotes {notes : List Note} (hnotes : ∀ n ∈ notes, n.GivesBounds) :
    (ofNotes notes).Whole := by
  refine whole_empty.withAll fun l hl => ?_
  obtain ⟨n, hn, hl⟩ := List.mem_flatMap.1 hl
  exact (hnotes n hn).bounds l hl

end Bounds

/-! ## shapes -/

namespace Shape

/-- The shape of integers with bounds, with or without something that is said about them. -/
inductive Bounded (b : Bounds) : Shape → Prop
  | plain : Bounded b (.number .int b)
  | said (title description : Option String) : Bounded b (.said title description (.number .int b))

variable {b : Bounds} {s : Shape}

/-- A constraint adds its bound. -/
theorem Bounded.constrain (h : Bounded b s) {l : Limit} (hl : l.IsBound) :
    Bounded ((b.with? l).getD b) (s.constrain l) := by
  have hnumber : (Shape.number .int b).constrain l = .number .int ((b.with? l).getD b) := by
    cases l with
    | gt n => rfl
    | ge n => rfl
    | lt n => rfl
    | le n => rfl
    | _ => exact hl.elim
  cases h with
  | plain => exact hnumber ▸ .plain
  | said title description =>
      show Bounded _ (.said title description ((Shape.number .int b).constrain l))
      exact hnumber ▸ .said title description

/-- Constraints add their bounds. -/
theorem Bounded.constrainAll (h : Bounded b s) {ls : List Limit} (hls : ∀ l ∈ ls, l.IsBound) :
    Bounded (b.withAll ls) (ls.foldl (fun s l => s.constrain l) s) := by
  induction ls generalizing b s with
  | nil => exact h
  | cons l ls ih =>
      exact ih (h.constrain (hls l List.mem_cons_self)) fun m hm =>
        hls m (List.mem_cons_of_mem _ hm)

/-- A title and a description leave the bounds. -/
theorem Bounded.say (h : Bounded b s) (title description : Option String) :
    Bounded b (s.say title description) := by
  cases h with
  | plain =>
      cases title <;> cases description
      · exact .plain
      all_goals exact .said _ _
  | said t d =>
      cases title <;> cases description <;> exact .said _ _

/-- A note adds its bounds. -/
theorem Bounded.noted (h : Bounded b s) (c : Catalog) {n : Note} (hn : n.GivesBounds) :
    Bounded (b.withAll n.limits) (c.noted s n) := by
  have hall := h.constrainAll hn.bounds
  cases n with
  | field spec =>
      rw [Catalog.noted, hn.whole spec rfl]
      exact hall.say _ _
  | _ => exact hall

/-- The shape of an integer type with bounds. -/
theorem bounded_shape (c : Catalog) {notes : List Note} (hnotes : ∀ n ∈ notes, n.GivesBounds) :
    Bounded (.ofNotes notes) (c.shape (.annotated (.scalar .int) notes)) := by
  suffices hfold : ∀ (b : Bounds) (s : Shape), Bounded b s →
      Bounded (b.withAll (notes.flatMap Note.limits)) (notes.foldl c.noted s) from
    hfold {} _ .plain
  induction notes with
  | nil => exact fun b s h => h
  | cons n notes ih =>
      intro b s h
      rw [List.flatMap_cons, Bounds.withAll, List.foldl_append]
      exact ih (fun m hm => hnotes m (List.mem_cons_of_mem _ hm)) _ _
        (h.noted c (hnotes n List.mem_cons_self))

/-- Nothing is wrong with bounds that are integers. -/
theorem Bounded.flaw?_eq_none (h : Bounded b s) (hb : b.Whole) (c : Catalog) :
    s.flaw? c = none := by
  have hall (bound : Option Number) (hbound : ∀ n, bound = some n → ∃ k : ℤ, n = .int k) :
      bound.all boundsIntegers = true := by
    cases bound with
    | none => rfl
    | some n =>
        obtain ⟨k, rfl⟩ := hbound n rfl
        rfl
  have hfits : b.unfit? boundsIntegers = none := by
    simp [Bounds.unfit?, hall _ hb.gt, hall _ hb.ge, hall _ hb.lt, hall _ hb.le, hb.multipleOf]
  cases h with
  | plain => simp [flaw?, hfits]
  | said title description => simp [flaw?, hfits]

end Shape

/-! ## schemas -/

namespace Schema

/-- A number that is set stands under its keyword, and nothing else changes. -/
theorem find?_putNumber (s : Schema) (keyword k : String) (n : Option Number) :
    Table.find? (s.putNumber keyword n) k =
      if k = keyword then (n.map Number.toJson).or (Table.find? s k) else Table.find? s k := by
  cases n with
  | none => simp [putNumber]
  | some n => simp [putNumber, Table.find?_put]

/-- Bounds that are written stand under their keywords, and nothing else changes. -/
theorem find?_writeTo (b : Bounds) (s : Schema) (k : String) :
    Table.find? (b.writeTo s) k =
      if k = "exclusiveMinimum" then (b.gt.map Number.toJson).or (Table.find? s k)
      else if k = "minimum" then (b.ge.map Number.toJson).or (Table.find? s k)
      else if k = "exclusiveMaximum" then (b.lt.map Number.toJson).or (Table.find? s k)
      else if k = "maximum" then (b.le.map Number.toJson).or (Table.find? s k)
      else if k = "multipleOf" then (b.multipleOf.map Number.toJson).or (Table.find? s k)
      else Table.find? s k := by
  simp only [Bounds.writeTo, find?_putNumber]
  split_ifs <;> simp_all

/-- The keywords that bound a number. -/
def boundKeywords : List String :=
  ["minimum", "exclusiveMinimum", "maximum", "exclusiveMaximum", "multipleOf"]

/-- What stands under the keyword of a bound is a number. -/
theorem exists_bound (b : Bounds) {k : String} (hk : k ∈ boundKeywords) :
    ∃ n : Option Number,
      Table.find? (b.writeTo (ofType "integer")) k = n.map Number.toJson := by
  rw [find?_writeTo]
  simp only [boundKeywords, List.mem_cons, List.not_mem_nil, or_false] at hk
  obtain rfl | rfl | rfl | rfl | rfl := hk
  · exact ⟨b.ge, by simp [ofType, Table.find?_cons]⟩
  · exact ⟨b.gt, by simp [ofType, Table.find?_cons]⟩
  · exact ⟨b.le, by simp [ofType, Table.find?_cons]⟩
  · exact ⟨b.lt, by simp [ofType, Table.find?_cons]⟩
  · exact ⟨b.multipleOf, by simp [ofType, Table.find?_cons]⟩

/-- A schema has the bounds under their keywords. -/
def Writes (s : Schema) (b : Bounds) : Prop :=
  ∀ k ∈ boundKeywords, Table.find? s k = Table.find? (b.writeTo (ofType "integer")) k

section Writes

variable {s : Schema} {b : Bounds}

/-- A number is read back from its JSON. -/
theorem toJson_number? (n : Number) : n.toJson.number? = some n := by
  cases n <;> rfl

/-- A number is not the value true. -/
theorem not_flags_toJson (n : Option Number) : n.map Number.toJson ≠ some (.bool true) := by
  rcases n with _ | (n | x) <;> simp [Number.toJson]

/-- The keywords with their bounds. -/
theorem Writes.find?_eq (h : s.Writes b) :
    Table.find? s "minimum" = b.ge.map Number.toJson ∧
      Table.find? s "exclusiveMinimum" = b.gt.map Number.toJson ∧
      Table.find? s "maximum" = b.le.map Number.toJson ∧
      Table.find? s "exclusiveMaximum" = b.lt.map Number.toJson ∧
      Table.find? s "multipleOf" = b.multipleOf.map Number.toJson := by
  refine ⟨?_, ?_, ?_, ?_, ?_⟩ <;> rw [h _ (by simp [boundKeywords]), find?_writeTo] <;>
    simp [ofType, Table.find?_cons]

/-- A schema in which bounds are written has their numbers. -/
theorem Writes.hasNumber (h : s.Writes b) (x : Number) :
    (HasNumber s "minimum" x ↔ b.ge = some x) ∧ (HasNumber s "exclusiveMinimum" x ↔ b.gt = some x) ∧
      (HasNumber s "maximum" x ↔ b.le = some x) ∧
      (HasNumber s "exclusiveMaximum" x ↔ b.lt = some x) ∧
      (HasNumber s "multipleOf" x ↔ b.multipleOf = some x) := by
  have hread (n : Option Number) : (n.map Number.toJson).bind Json.number? = n := by
    cases n with
    | none => rfl
    | some n => exact toJson_number? n
  simp only [HasNumber, h.find?_eq, hread, and_self]

/-- A schema in which bounds are written flags none of them as exclusive. -/
theorem Writes.not_flags (h : s.Writes b) :
    ¬ s.Flags "exclusiveMinimum" ∧ ¬ s.Flags "exclusiveMaximum" := by
  rw [Flags, Flags, h.find?_eq.2.1, h.find?_eq.2.2.2.1]
  exact ⟨not_flags_toJson b.gt, not_flags_toJson b.lt⟩

/-- An integer keeps the schema exactly if it keeps the bounds. -/
theorem Writes.admitsNumber_iff (h : s.Writes b) (hb : b.Whole) (n : ℤ) :
    AdmitsNumber s (.int n) ↔ b.Admits n := by
  obtain ⟨hflag, hflag'⟩ := h.not_flags
  constructor
  · intro hadmits
    exact
      { gt := fun k hk => by
          simpa [Number.int_le_iff] using
            hadmits.exclusiveMinimum _ (.inl ((h.hasNumber _).2.1.2 hk))
        ge := fun k hk => by
          simpa [Number.int_lt_iff] using hadmits.minimum _ ((h.hasNumber _).1.2 hk) hflag
        lt := fun k hk => by
          simpa [Number.int_le_iff] using
            hadmits.exclusiveMaximum _ (.inl ((h.hasNumber _).2.2.2.1.2 hk))
        le := fun k hk => by
          simpa [Number.int_lt_iff] using hadmits.maximum _ ((h.hasNumber _).2.2.1.2 hk) hflag' }
  · intro hadmits
    refine ⟨fun m hm _ => ?_, fun m hm _ => ?_, fun m hm => ?_, fun m hm => ?_, fun m hm => ?_⟩
    · have hge := (h.hasNumber m).1.1 hm
      obtain ⟨k, rfl⟩ := hb.ge m hge
      simpa [Number.int_lt_iff] using hadmits.ge k hge
    · have hle := (h.hasNumber m).2.2.1.1 hm
      obtain ⟨k, rfl⟩ := hb.le m hle
      simpa [Number.int_lt_iff] using hadmits.le k hle
    · have hgt := (h.hasNumber m).2.1.1 (hm.resolve_right fun hm => hflag hm.2)
      obtain ⟨k, rfl⟩ := hb.gt m hgt
      simpa [Number.int_le_iff] using hadmits.gt k hgt
    · have hlt := (h.hasNumber m).2.2.2.1.1 (hm.resolve_right fun hm => hflag' hm.2)
      obtain ⟨k, rfl⟩ := hb.lt m hlt
      simpa [Number.int_le_iff] using hadmits.lt k hlt
    · have hdivisor := (h.hasNumber m).2.2.2.2.1 hm
      simp [hb.multipleOf] at hdivisor

end Writes

end Schema

namespace Shape

variable {b : Bounds} {s : Shape}

/-- A bounded shape has the schema of an integer with its bounds. -/
theorem find?_schema_of_bounded (h : Bounded b s) {k : String} (hk : k ∉ ["title", "description"]) :
    Table.find? s.schema k = Table.find? (b.writeTo (Schema.ofType "integer")) k := by
  simp only [List.mem_cons, List.not_mem_nil, or_false, not_or] at hk
  cases h with
  | plain => rfl
  | said title description =>
      show Table.find? (((b.writeTo (Schema.ofType "integer")).putText "title" title).putText
        "description" description) k = _
      rw [Schema.find?_putText_of_ne _ _ hk.2, Schema.find?_putText_of_ne _ _ hk.1]

end Shape

namespace Catalog

/-- The schema of an integer type with bounds is derived, and has the bounds under their
keywords. -/
theorem exists_derived_bounds (c : Catalog) {notes : List Note}
    (hnotes : ∀ n ∈ notes, n.GivesBounds) :
    ∃ d, c.derive (.annotated (.scalar .int) notes) = .ok d ∧
      d.schema.Writes (.ofNotes notes) := by
  let t : Ty := .annotated (.scalar .int) notes
  have hshape := Shape.bounded_shape c hnotes
  have hreachable : c.reachable t = [] := by
    simp [t, reachable, Ty.heads, depthFirst, rounds]
  have hcheck : c.checkUse t = .ok () := by
    simp [checkUse, hasSchema, hreachable, t, hshape.flaw?_eq_none (Bounds.whole_ofNotes hnotes) c]
  obtain ⟨d, hd⟩ : ∃ d, c.derive t = .ok d := by
    rw [derive, hcheck]
    exact ⟨_, rfl⟩
  refine ⟨d, hd, fun k hk => ?_⟩
  have href : Table.has (c.schema t) "$ref" = false := by
    have hfind : Table.find? (c.schema t) "$ref" = none := by
      show Table.find? (c.shape t).schema "$ref" = none
      rw [Shape.find?_schema_of_bounded hshape (by simp), Schema.find?_writeTo]
      simp [Schema.ofType, Table.find?_cons]
    rw [← Bool.not_eq_true, Table.has_iff_find?, hfind]
    simp
  have hk' : k ∉ ["title", "description"] ∧ k ≠ "title" := by
    simp only [Schema.boundKeywords, List.mem_cons, List.not_mem_nil, or_false] at hk
    obtain rfl | rfl | rfl | rfl | rfl := hk <;> decide
  have hbounds : Table.find? (c.schema t) k = _ := Shape.find?_schema_of_bounded hshape hk'.1
  obtain ⟨n, hn⟩ := Schema.exists_bound (.ofNotes notes) hk
  rw [derive_eq hd, top_eq_schema href]
  show Table.find? (Table.erase (Reference.renamedMembers _ .schema (c.schema t)) "title") k = _
  rw [Table.find?_erase_of_ne _ hk'.2, Reference.renamedMembers_eq, Table.find?_mapValues, hbounds,
    hn]
  -- numbers have nothing to rename
  rcases n with _ | (n | x) <;> rfl

end Catalog

end ApiTree
