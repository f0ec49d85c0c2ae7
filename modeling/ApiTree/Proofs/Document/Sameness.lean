import ApiTree.Document.Basic
import ApiTree.Proofs.Json.Values
import Mathlib.Data.List.Perm.Subperm

/-!
# ApiTree.Proofs.Document.Sameness

Equality of the parts of a document that are compared.  The program compares schemas by value;
they are the same JSON value if, beside that, no boolean in one faces a number in the other
(`Schema.sameValue_iff`).  Responses are compared name by name (`Response.same_iff`), and so they
are the same up to the values of schemas in the same way (`Response.sameValue_iff`).
-/

namespace ApiTree

/-! ## schemas -/

namespace Schema

/-- The two schemas are the same JSON value, or there is none on either side. -/
inductive SameValue : Option Schema → Option Schema → Prop where
  | absent : SameValue none none
  | present {a b : Schema} (h : (Json.obj a).Equal (.obj b)) : SameValue (some a) (some b)

/-- Somewhere a boolean in one schema faces the number in the other that it counts as. -/
def Conflated (a b : Option Schema) : Prop :=
  ∃ x y, a = some x ∧ b = some y ∧ (Json.obj x).Conflates (.obj y)

theorem sameValue_iff (a b : Option Schema) :
    SameValue a b ↔ sameOption a b = true ∧ ¬ Conflated a b := by
  constructor
  · rintro (_ | h)
    · exact ⟨rfl, fun ⟨_, _, hx, _⟩ => nomatch hx⟩
    · obtain ⟨hequal, hconflates⟩ := (Json.equal_iff_looseEq _ _).1 h
      refine ⟨hequal, ?_⟩
      rintro ⟨x, y, hx, hy, hxy⟩
      obtain rfl := Option.some.inj hx
      obtain rfl := Option.some.inj hy
      exact hconflates hxy
  · rintro ⟨hsame, hconflated⟩
    cases a with
    | none =>
        cases b with
        | none => exact .absent
        | some y => simp [sameOption] at hsame
    | some x =>
        cases b with
        | none => simp [sameOption] at hsame
        | some y =>
            exact .present ((Json.equal_iff_looseEq _ _).2
              ⟨hsame, fun h => hconflated ⟨x, y, rfl, rfl, h⟩⟩)

end Schema

/-! ## tables -/

/-- Tables without repeated keys are equal, whatever their order, just if they have the same keys
and related values under each. -/
theorem Table.same_iff {α : Type} {f : α → α → Bool} {a b : Table String α} (ha : a.keys.Nodup)
    (hb : b.keys.Nodup) : Table.same f a b = true ↔ (∀ k, k ∈ a.keys ↔ k ∈ b.keys) ∧
      ∀ k v w, a.find? k = some v → b.find? k = some w → f v w = true := by
  have hall : (a.all fun e => (b.find? e.1).any (f e.2)) = true ↔
      ∀ k v, a.find? k = some v → ∃ w, b.find? k = some w ∧ f v w = true := by
    simp only [List.all_eq_true, Option.any_eq_true]
    constructor
    · exact fun h k v hv => h (k, v) (Table.mem_of_find? hv)
    · exact fun h e he => h e.1 e.2 (Table.find?_of_mem ha he)
  have hlength : a.length = b.length ↔ a.keys.length = b.keys.length := by
    rw [keys, keys, List.length_map, List.length_map]
  rw [Table.same, Bool.and_eq_true, beq_iff_eq, hlength]
  constructor
  · rintro ⟨hlen, h⟩
    have hrelated := hall.1 h
    have hsub : a.keys ⊆ b.keys := fun k hk => by
      obtain ⟨v, hv⟩ := (mem_keys_iff a k).1 hk
      obtain ⟨w, hw, -⟩ := hrelated k v hv
      exact (mem_keys_iff b k).2 ⟨w, hw⟩
    have hperm := (List.subperm_of_subset ha hsub).perm_of_length_le hlen.ge
    refine ⟨fun k => hperm.mem_iff, fun k v w hv hw => ?_⟩
    obtain ⟨w', hw', hvw⟩ := hrelated k v hv
    obtain rfl := Option.some.inj (hw.symm.trans hw')
    exact hvw
  · rintro ⟨hkeys, h⟩
    refine ⟨((List.perm_ext_iff_of_nodup ha hb).2 hkeys).length_eq, hall.2 fun k v hv => ?_⟩
    obtain ⟨w, hw⟩ := (mem_keys_iff b k).1 ((hkeys k).1 ((mem_keys_iff a k).2 ⟨v, hv⟩))
    exact ⟨w, hw, h k v w hv hw⟩

/-! ## responses -/

namespace Response

/-- The content types and the headers of a response are not repeated. -/
structure Tidy (x : Response) : Prop where
  content : x.content.keys.Nodup
  headers : x.headers.keys.Nodup

/-- Two responses have the same text, and the same content types and headers, whose schemas are
related. -/
structure Alike (R : Option Schema → Option Schema → Prop) (x y : Response) : Prop where
  description : x.description = y.description
  contentTypes : ∀ k, k ∈ x.content.keys ↔ k ∈ y.content.keys
  content : ∀ k u v, x.content.find? k = some u → y.content.find? k = some v → R u.schema v.schema
  headerNames : ∀ k, k ∈ x.headers.keys ↔ k ∈ y.headers.keys
  headers : ∀ k u v, x.headers.find? k = some u → y.headers.find? k = some v →
    u.description = v.description ∧ R u.schema v.schema

/-- Two responses are the same, up to the order of their parts. -/
def SameValue : Response → Response → Prop := Alike Schema.SameValue

/-- Two responses have schemas for one content type or header in which a boolean faces a number. -/
inductive Conflated (x y : Response) : Prop where
  | content (k : String) (u v : MediaType) (hu : x.content.find? k = some u)
    (hv : y.content.find? k = some v) (h : Schema.Conflated u.schema v.schema)
  | header (k : String) (u v : HeaderObject) (hu : x.headers.find? k = some u)
    (hv : y.headers.find? k = some v) (h : Schema.Conflated u.schema v.schema)

section Alike

variable {R : Option Schema → Option Schema → Prop} {x y z : Response}

theorem Alike.symm (hR : ∀ a b, R a b → R b a) (h : x.Alike R y) : y.Alike R x where
  description := h.description.symm
  contentTypes k := (h.contentTypes k).symm
  content k v u hv hu := hR _ _ (h.content k u v hu hv)
  headerNames k := (h.headerNames k).symm
  headers k v u hv hu :=
    have ⟨hdescription, hschema⟩ := h.headers k u v hu hv
    ⟨hdescription.symm, hR _ _ hschema⟩

theorem Alike.trans (hR : ∀ a b c, R a b → R b c → R a c) (hxy : x.Alike R y)
    (hyz : y.Alike R z) : x.Alike R z where
  description := hxy.description.trans hyz.description
  contentTypes k := (hxy.contentTypes k).trans (hyz.contentTypes k)
  content k u w hu hw := by
    have hk := (hxy.contentTypes k).1 ((Table.mem_keys_iff _ k).2 ⟨u, hu⟩)
    obtain ⟨v, hv⟩ := (Table.mem_keys_iff _ k).1 hk
    exact hR _ _ _ (hxy.content k u v hu hv) (hyz.content k v w hv hw)
  headerNames k := (hxy.headerNames k).trans (hyz.headerNames k)
  headers k u w hu hw := by
    have hk := (hxy.headerNames k).1 ((Table.mem_keys_iff _ k).2 ⟨u, hu⟩)
    obtain ⟨v, hv⟩ := (Table.mem_keys_iff _ k).1 hk
    obtain ⟨huv, hR₁⟩ := hxy.headers k u v hu hv
    obtain ⟨hvw, hR₂⟩ := hyz.headers k v w hv hw
    exact ⟨huv.trans hvw, hR _ _ _ hR₁ hR₂⟩

end Alike

/-- What the program compares: responses are equal just if they are alike up to equality by value
of their schemas. -/
theorem same_iff {x y : Response} (hx : x.Tidy) (hy : y.Tidy) :
    x.same y = true ↔ x.Alike (fun a b => Schema.sameOption a b = true) y := by
  rw [same, Bool.and_eq_true, Bool.and_eq_true, beq_iff_eq, Table.same_iff hx.content hy.content,
    Table.same_iff hx.headers hy.headers]
  simp only [MediaType.same, HeaderObject.same, Bool.and_eq_true, beq_iff_eq]
  constructor
  · rintro ⟨⟨hdescription, htypes, hcontent⟩, hnames, hheaders⟩
    exact ⟨hdescription, htypes, hcontent, hnames, hheaders⟩
  · rintro ⟨hdescription, htypes, hcontent, hnames, hheaders⟩
    exact ⟨⟨hdescription, htypes, hcontent⟩, hnames, hheaders⟩

theorem sameValue_iff {x y : Response} (hx : x.Tidy) (hy : y.Tidy) :
    x.SameValue y ↔ x.same y = true ∧ ¬ x.Conflated y := by
  rw [same_iff hx hy]
  constructor
  · rintro ⟨hdescription, htypes, hcontent, hnames, hheaders⟩
    refine ⟨⟨hdescription, htypes, fun k u v hu hv => ?_, hnames, fun k u v hu hv => ?_⟩, ?_⟩
    · exact ((Schema.sameValue_iff _ _).1 (hcontent k u v hu hv)).1
    · obtain ⟨htext, hschema⟩ := hheaders k u v hu hv
      exact ⟨htext, ((Schema.sameValue_iff _ _).1 hschema).1⟩
    · rintro (⟨k, u, v, hu, hv, h⟩ | ⟨k, u, v, hu, hv, h⟩)
      · exact ((Schema.sameValue_iff _ _).1 (hcontent k u v hu hv)).2 h
      · exact ((Schema.sameValue_iff _ _).1 (hheaders k u v hu hv).2).2 h
  · rintro ⟨⟨hdescription, htypes, hcontent, hnames, hheaders⟩, hconflated⟩
    refine ⟨hdescription, htypes, fun k u v hu hv => ?_, hnames, fun k u v hu hv => ?_⟩
    · exact (Schema.sameValue_iff _ _).2
        ⟨hcontent k u v hu hv, fun h => hconflated (.content k u v hu hv h)⟩
    · obtain ⟨htext, hschema⟩ := hheaders k u v hu hv
      exact ⟨htext, (Schema.sameValue_iff _ _).2
        ⟨hschema, fun h => hconflated (.header k u v hu hv h)⟩⟩

section Same

variable {x y z : Response} (hx : x.Tidy) (hy : y.Tidy) (hz : z.Tidy)

include hx hy

theorem same_symm (h : x.same y = true) : y.same x = true :=
  (same_iff hy hx).2 (((same_iff hx hy).1 h).symm fun a b hab => by rwa [Schema.sameOption_comm])

include hz

theorem same_trans (hxy : x.same y = true) (hyz : y.same z = true) : x.same z = true :=
  (same_iff hx hz).2 (((same_iff hx hy).1 hxy).trans (fun _ _ _ => Schema.sameOption_trans)
    ((same_iff hy hz).1 hyz))

end Same

end Response
end ApiTree
