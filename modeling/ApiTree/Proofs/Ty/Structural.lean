import ApiTree.Proofs.Ty.Reach
import ApiTree.Schema.OfShape
import ApiTree.Shape.OfTy

/-!
# ApiTree.Proofs.Ty.Structural

Types that are built from numbers, texts, truth values, null, literals and enumerations
by collections and unions (`Ty.Structural`), and the encoded form of their values
(`Ty.Encodes`).

A union is written as the list of its alternatives, where of schemas that are equal by value
one is kept.  Equality by value takes true for one, which a check does not, so a
union says what its members say only if its alternatives are apart: those that are equal by
value are the same (`Catalog.Apart`).
-/

namespace ApiTree

/-- Whether a value can stand in a literal type: a text, an integer or a truth value. -/
def Json.isLiteral : Json → Bool
  | .str _ | .int _ | .bool _ => true
  | _ => false

/-- Whether a value can be that of the member of an enumeration: a text or an integer. -/
def Json.isLabel : Json → Bool
  | .str _ | .int _ => true
  | _ => false

namespace Ty

/-- The types that have all of their values from their structure.  An enumeration may draw
samples of its own; each of them stands for a member. -/
inductive Structural (c : Catalog) : Ty → Prop
  | scalar {s : Scalar} (h : s ∈ [.null, .int, .bool, .float, .str]) : Structural c (.scalar s)
  | within {low high : Int} (h : low ≤ high) : Structural c (.intBetween low high)
  | literal {vs : List Json} (hne : vs ≠ []) (h : ∀ v ∈ vs, v.isLiteral = true) :
    Structural c (.literal vs)
  | enum {i : Nat} {members : List (String × Json)} {base : Option EnumBase}
    (hform : c.form i = .enum members base) (hne : members ≠ [])
    (h : ∀ m ∈ members, m.2.isLabel = true)
    (hsamples : ∀ s, (c.decl i).samples = some s →
      s.values ≠ [] ∧ ∀ j ∈ s.values, ∃ m ∈ members, m.2.looseEq j = true) :
    Structural c (.cls i)
  | each {k : Collector} {t : Ty} (hk : k ∈ [.list, .sequence, .run]) (h : Structural c t) :
    Structural c (.each k t)
  | tuple {ts : List Ty} (h : ∀ t ∈ ts, Structural c t) : Structural c (.tuple ts)
  | keyed {k : Keyed} {t : Ty} (h : Structural c t) : Structural c (.keyed k (.scalar .str) t)
  | union {style : UnionStyle} {ts : List Ty} (hne : ts ≠ []) (h : ∀ t ∈ ts, Structural c t) :
    Structural c (.union style ts)

/-- The encoded form of the values of a type. -/
inductive Encodes (c : Catalog) : Ty → Json → Prop
  | null : Encodes c (.scalar .null) .null
  | bool (b : Bool) : Encodes c (.scalar .bool) (.bool b)
  | int (n : Int) : Encodes c (.scalar .int) (.int n)
  | float (x : Double) : Encodes c (.scalar .float) (.float x)
  | str (s : String) : Encodes c (.scalar .str) (.str s)
  | within {low high n : Int} (hlow : low ≤ n) (hhigh : n ≤ high) :
    Encodes c (.intBetween low high) (.int n)
  | literal {vs : List Json} {v : Json} (h : v ∈ vs) : Encodes c (.literal vs) v
  | enum {i : Nat} {members : List (String × Json)} {base : Option EnumBase} {v : Json}
    (hform : c.form i = .enum members base) (h : v ∈ members.map (·.2)) : Encodes c (.cls i) v
  | each {k : Collector} {t : Ty} {xs : List Json} (h : ∀ x ∈ xs, Encodes c t x) :
    Encodes c (.each k t) (.arr xs)
  | tuple {ts : List Ty} {xs : List Json} (hlen : xs.length = ts.length)
    (h : ∀ (i : Nat) x t, xs[i]? = some x → ts[i]? = some t → Encodes c t x) :
    Encodes c (.tuple ts) (.arr xs)
  | keyed {k : Keyed} {key t : Ty} {ms : Json.Members} (h : ∀ e ∈ ms, Encodes c t e.2) :
    Encodes c (.keyed k key t) (.obj ms)
  | union {style : UnionStyle} {ts : List Ty} {t : Ty} {v : Json} (ht : t ∈ ts)
    (h : Encodes c t v) : Encodes c (.union style ts) v

/-! ## parts -/

/-- The declared types that stand in a structural type are enumerations of labels. -/
theorem Structural.exists_enum {c : Catalog} {t : Ty} (ht : Structural c t) {i : Nat}
    (hi : i ∈ t.heads) : ∃ members base, c.form i = .enum members base ∧
      ∀ v ∈ members.map (·.2), v.isLabel = true := by
  induction ht with
  | scalar _ => simp [heads] at hi
  | within _ => simp [intBetween, heads] at hi
  | literal _ _ => simp [heads] at hi
  | enum hform _ h _ =>
      obtain rfl := List.mem_singleton.1 hi
      exact ⟨_, _, hform, fun v hv => by
        obtain ⟨m, hm, rfl⟩ := List.mem_map.1 hv
        exact h m hm⟩
  | each _ _ ih => exact ih hi
  | tuple _ ih =>
      obtain ⟨t, ht, hi⟩ := mem_headsList.1 hi
      exact ih t ht hi
  | keyed _ ih => exact ih hi
  | union _ _ ih =>
      obtain ⟨t, ht, hi⟩ := mem_headsList.1 hi
      exact ih t ht hi

mutual

/-- The members of each union that stands in a type. -/
def unions : Ty → List (List Ty)
  | .each _ t => unions t
  | .tuple ts => unionsList ts
  | .keyed _ t u => unions t ++ unions u
  | .union _ ts => ts :: unionsList ts
  | .annotated t _ => unions t
  | _ => []

/-- The members of each union that stands in one of the types. -/
def unionsList : List Ty → List (List Ty)
  | [] => []
  | t :: ts => unions t ++ unionsList ts

end

theorem mem_unionsList {ts : List Ty} {us : List Ty} :
    us ∈ unionsList ts ↔ ∃ t ∈ ts, us ∈ t.unions := by
  induction ts with
  | nil => simp [unionsList]
  | cons t ts ih => simp [unionsList, ih]

end Ty

namespace Catalog

variable {c : Catalog}

theorem shapesNotNull_eq (ts : List Ty) : c.shapesNotNull ts = (Ty.nonNull ts).map c.shape := by
  induction ts with
  | nil => rfl
  | cons t ts ih =>
      rw [shapesNotNull, Ty.nonNull, List.filter_cons]
      cases Ty.same (.scalar .null) t with
      | true => exact ih
      | false => exact congrArg (c.shape t :: ·) ih

theorem getElem?_shapes (ts : List Ty) (k : Nat) : (c.shapes ts)[k]? = ts[k]?.map c.shape := by
  induction ts generalizing k with
  | nil => rfl
  | cons t ts ih =>
      cases k with
      | zero => rfl
      | succ k => exact ih k

theorem eq_null_of_same {t : Ty} (h : Ty.same (.scalar .null) t = true) : t = .scalar .null := by
  cases t with
  | scalar s =>
      obtain rfl : Scalar.null = s := by simpa [Ty.same] using h
      rfl
  | _ => simp [Ty.same] at h

/-- The alternatives that the members of a union bring into its schema. -/
def alternatives (c : Catalog) (ts : List Ty) : List Json :=
  (Shape.schemas (c.shapesNotNull ts)).flatMap Schema.alternatives

/-- In every union of a type, the alternatives that are equal by value are the same. -/
def Apart (c : Catalog) (t : Ty) : Prop :=
  ∀ ts ∈ t.unions, ∀ a ∈ c.alternatives ts, ∀ b ∈ c.alternatives ts, a.looseEq b = true → a = b

end Catalog
end ApiTree
