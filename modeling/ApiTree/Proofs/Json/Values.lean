import ApiTree.Proofs.Json.Equality
import ApiTree.Schema.Basic

/-!
# ApiTree.Proofs.Json.Values

Equality of JSON values (`Json.Equal`): a boolean equals only itself, at any depth.  Equality by
value takes a boolean for the number that it counts as, and so does the equality of items and
members of an enumeration, below the top.  So both are coarser than equality of JSON values, and
where they differ a boolean faces a number (`Json.Conflates`).

* `Json.equal_iff_looseEq`, `Json.equal_iff_itemEq` — two values are equal just if they are equal
  by value, and no boolean of one faces a number of the other.
* `Json.itemEq_iff_counted` — the equality of items is equality of JSON values with the booleans
  inside counted as numbers.
-/

namespace ApiTree
namespace Json

/-- Equality of JSON values: numbers by value, arrays item by item, objects name by name; null, a
boolean and a text equal only themselves. -/
inductive Equal : Json → Json → Prop where
  | null : Equal .null .null
  | bool (b : Bool) : Equal (.bool b) (.bool b)
  | number {a b : Json} {n m : Number} (ha : a = n.toJson) (hb : b = m.toJson)
    (h : n.same m = true) : Equal a b
  | str (s : String) : Equal (.str s) (.str s)
  | arr {xs ys : List Json} (hlen : xs.length = ys.length)
    (h : ∀ (i : Nat) x y, xs[i]? = some x → ys[i]? = some y → Equal x y) :
    Equal (.arr xs) (.arr ys)
  | obj {ms ns : Members} (hnames : ∀ k, Table.has ms k = Table.has ns k)
    (h : ∀ k v w, Table.find? ms k = some v → Table.find? ns k = some w → Equal v w) :
    Equal (.obj ms) (.obj ns)

/-- Two values have `u` and `w` at one place: the same item of the same member, and so on. -/
inductive Facing : Json → Json → Json → Json → Prop where
  | here (a b : Json) : Facing a b a b
  | item {xs ys : List Json} {i : Nat} {x y u w : Json} (hx : xs[i]? = some x)
    (hy : ys[i]? = some y) (rest : Facing x y u w) : Facing (.arr xs) (.arr ys) u w
  | member {ms ns : Members} {k : String} {x y u w : Json} (hx : Table.find? ms k = some x)
    (hy : Table.find? ns k = some y) (rest : Facing x y u w) : Facing (.obj ms) (.obj ns) u w

/-- Somewhere a boolean of one value faces the number of the other that it counts as. -/
def Conflates (a b : Json) : Prop :=
  ∃ u w, Facing a b u w ∧ u.isBool ≠ w.isBool ∧ u.looseEq w = true

/-! ## equality by value, and what it conflates -/

@[simp] theorem toNumber?_toJson (n : Number) : n.toJson.toNumber? = some n := by cases n <;> rfl

@[simp] theorem isBool_toJson (n : Number) : n.toJson.isBool = false := by cases n <;> rfl

/-- What counts as a number and is no boolean is the number. -/
theorem eq_toJson_of_toNumber? {a : Json} {n : Number} (h : a.toNumber? = some n)
    (hbool : a.isBool = false) : a = n.toJson := by
  cases a <;> simp only [toNumber?, isBool, reduceCtorEq, Option.some.injEq] at h hbool <;>
    subst h <;> rfl

/-- Equal values are found equal. -/
theorem Equal.looseEq {a b : Json} (h : a.Equal b) : a.looseEq b = true := by
  induction h with
  | null => rfl
  | bool b => cases b <;> rfl
  | @number a b n m ha hb h =>
      subst ha hb
      exact (looseEq_of_toNumber? (toNumber?_toJson n) _).2 ⟨m, toNumber?_toJson m, h⟩
  | str s => simp [Json.looseEq]
  | arr hlen _ ih =>
      rw [Json.looseEq, looseEqList_iff]
      exact ⟨hlen, ih⟩
  | @obj ms ns hnames h ih =>
      have hfound : ∀ k, (∃ v, Table.find? ms k = some v) ↔ ∃ w, Table.find? ns k = some w :=
        fun k => by rw [← Table.has_iff_find?, ← Table.has_iff_find?, hnames]
      refine (looseEq_obj_iff ms ns).2 ⟨fun k v hv => ?_, fun k w hw => (hfound k).2 ⟨w, hw⟩⟩
      obtain ⟨w, hw⟩ := (hfound k).1 ⟨v, hv⟩
      exact ⟨w, hw, ih k v w hv hw⟩

/-- A truth value equals truth values only. -/
theorem Equal.isBool_eq {a b : Json} (h : a.Equal b) : a.isBool = b.isBool := by
  cases h with
  | number ha hb _ => rw [ha, hb, isBool_toJson, isBool_toJson]
  | _ => rfl

/-- What equal values have at one place is equal. -/
theorem Facing.equal {a b u w : Json} (h : Facing a b u w) (hab : a.Equal b) : u.Equal w := by
  induction h with
  | here => exact hab
  | item hx hy _ ih =>
      cases hab with
      | @number _ _ n _ ha => cases n <;> cases ha
      | arr _ h => exact ih (h _ _ _ hx hy)
  | member hx hy _ ih =>
      cases hab with
      | @number _ _ n _ ha => cases n <;> cases ha
      | obj _ h => exact ih (h _ _ _ hx hy)

/-- Equal values have no truth value where the other has a number. -/
theorem Equal.not_conflates {a b : Json} (h : a.Equal b) : ¬ a.Conflates b := by
  rintro ⟨u, w, hfacing, hbool, -⟩
  exact hbool (hfacing.equal h).isBool_eq

/-- Booleans that count as the same number are the same. -/
theorem eq_of_looseEq_of_isBool {a b : Json} (h : a.looseEq b = true) (ha : a.isBool = true)
    (hb : b.isBool = true) : a = b := by
  cases a <;> cases b <;> simp only [isBool, Bool.false_eq_true] at ha hb
  next x y => cases x <;> cases y <;> first | rfl | exact absurd h (by decide)

/-- Values that are equal by value are equal unless a boolean faces a number. -/
theorem equal_of_looseEq {a b : Json} (h : a.looseEq b = true) (hconflates : ¬ a.Conflates b) :
    a.Equal b := by
  obtain ⟨rfl, rfl⟩ | ⟨s, rfl, rfl⟩ | ⟨xs, ys, rfl, rfl⟩ | ⟨ms, ns, rfl, rfl⟩ |
    ⟨n, m, hn, hm, hsame⟩ := looseEq_cases h
  · exact .null
  · exact .str s
  · rw [looseEq, looseEqList_iff] at h
    refine .arr h.1 fun i x y hx hy => ?_
    have hconflates' : ¬ x.Conflates y := by
      rintro ⟨u, w, hfacing, hdiffer⟩
      exact hconflates ⟨u, w, .item hx hy hfacing, hdiffer⟩
    have := sizeOf_lt_of_getElem? hx
    exact equal_of_looseEq (h.2 i x y hx hy) hconflates'
  · obtain ⟨hsub, hnames⟩ := (looseEq_obj_iff ms ns).1 h
    refine .obj (fun k => ?_) fun k v w hv hw => ?_
    · rw [Bool.eq_iff_iff, Table.has_iff_find?, Table.has_iff_find?]
      constructor
      · rintro ⟨v, hv⟩
        obtain ⟨w, hw, -⟩ := hsub k v hv
        exact ⟨w, hw⟩
      · rintro ⟨w, hw⟩
        exact hnames k w hw
    · obtain ⟨w', hw', heq⟩ := hsub k v hv
      obtain rfl := Option.some.inj (hw'.symm.trans hw)
      have hconflates' : ¬ v.Conflates w' := by
        rintro ⟨u, u', hfacing, hdiffer⟩
        exact hconflates ⟨u, u', .member hv hw hfacing, hdiffer⟩
      have := sizeOf_lt_of_find? hv
      exact equal_of_looseEq heq hconflates'
  · have hbool : a.isBool = b.isBool :=
      by_contra fun hne => hconflates ⟨a, b, .here a b, hne, h⟩
    cases ha : a.isBool with
    | true =>
        obtain rfl := eq_of_looseEq_of_isBool h ha (hbool ▸ ha)
        cases a <;> simp only [isBool, Bool.false_eq_true] at ha
        exact .bool _
    | false =>
        have hb : b.isBool = false := hbool ▸ ha
        exact .number (eq_toJson_of_toNumber? hn ha) (eq_toJson_of_toNumber? hm hb) hsame
termination_by sizeOf a

/-- Equality of JSON values is equality by value where no boolean faces a number. -/
theorem equal_iff_looseEq (a b : Json) :
    a.Equal b ↔ a.looseEq b = true ∧ ¬ a.Conflates b :=
  ⟨fun h => ⟨h.looseEq, h.not_conflates⟩, fun h => equal_of_looseEq h.1 h.2⟩

/-! ## equality of items -/

/-- The equality of items tells a boolean from a number at the top, and is equality by value
below. -/
theorem itemEq_iff (a b : Json) :
    a.itemEq b = true ↔ a.isBool = b.isBool ∧ a.looseEq b = true := by
  cases a with
  | bool x =>
      cases b with
      | bool y => cases x <;> cases y <;> decide
      | _ => simp [itemEq, isBool]
  | _ => cases b <;> simp [itemEq, isBool]

/-- Values are equal if they are found equal as items and nothing is conflated. -/
theorem equal_iff_itemEq (a b : Json) : a.Equal b ↔ a.itemEq b = true ∧ ¬ a.Conflates b := by
  rw [itemEq_iff, equal_iff_looseEq]
  constructor
  · rintro ⟨h, hconflates⟩
    exact ⟨⟨((equal_iff_looseEq a b).2 ⟨h, hconflates⟩).isBool_eq, h⟩, hconflates⟩
  · rintro ⟨⟨-, h⟩, hconflates⟩
    exact ⟨h, hconflates⟩

/-! ## booleans counted as numbers -/

mutual

/-- The value with each boolean in it as the number that it counts as. -/
def counted : Json → Json
  | .bool b => .int (if b then 1 else 0)
  | .arr xs => .arr (countedList xs)
  | .obj ms => .obj (countedMembers ms)
  | .null => .null
  | .int n => .int n
  | .float x => .float x
  | .str s => .str s

/-- Items with their booleans counted. -/
def countedList : List Json → List Json
  | [] => []
  | x :: xs => counted x :: countedList xs

/-- Members with their booleans counted. -/
def countedMembers : List (String × Json) → List (String × Json)
  | [] => []
  | (k, v) :: ms => (k, counted v) :: countedMembers ms

end

/-- Counting truth values as numbers keeps the names of members. -/
theorem has_countedMembers (ms : Members) (k : String) :
    Table.has (countedMembers ms) k = Table.has ms k := by
  induction ms with
  | nil => rfl
  | cons m ms ih =>
      obtain ⟨l, v⟩ := m
      simp only [Table.has, countedMembers, List.any_cons] at *
      rw [ih]

mutual

/-- Whether values are found equal does not change if truth values count as numbers. -/
theorem looseEq_counted_left : ∀ a b : Json, looseEq (counted a) b = looseEq a b
  | .null, _ | .int _, _ | .float _, _ | .str _, _ => rfl
  | .bool _, _ => rfl
  | .arr xs, b => by
      cases b with
      | arr ys => exact looseEqList_counted_left xs ys
      | _ => rfl
  | .obj ms, b => by
      cases b with
      | obj ns =>
          rw [counted, looseEq, looseEq, looseSub_counted_left]
          simp only [has_countedMembers]
      | _ => rfl

/-- The same for lists of values. -/
theorem looseEqList_counted_left :
    ∀ xs ys : List Json, looseEqList (countedList xs) ys = looseEqList xs ys
  | [], _ => rfl
  | _ :: _, [] => rfl
  | x :: xs, y :: ys => by
      rw [countedList, looseEqList, looseEqList, looseEq_counted_left, looseEqList_counted_left]

/-- The same for the members of objects. -/
theorem looseSub_counted_left : ∀ (ms : List (String × Json)) (seen : List String)
    (ns : List (String × Json)), looseSub seen (countedMembers ms) ns = looseSub seen ms ns
  | [], _, _ => rfl
  | (k, v) :: ms, seen, ns => by
      rw [countedMembers, looseSub, looseSub, looseSub_counted_left ms]
      simp only [looseEq_counted_left v]

end

/-- Equality by value does not tell a boolean from the number that it counts as. -/
theorem looseEq_counted (a b : Json) : looseEq a.counted b.counted = looseEq a b := by
  rw [looseEq_counted_left, looseEq_comm, looseEq_counted_left, looseEq_comm]

/-- Where truth values count as numbers there are none. -/
theorem isBool_counted (a : Json) : a.counted.isBool = false := by cases a <;> rfl

/-- An item of what is counted is counted. -/
theorem exists_counted_of_getElem? {xs : List Json} {i : Nat} {y : Json}
    (h : (countedList xs)[i]? = some y) : ∃ x : Json, y = x.counted := by
  induction xs generalizing i with
  | nil => simp [countedList] at h
  | cons x xs ih =>
      cases i with
      | zero => exact ⟨x, (Option.some.inj h).symm⟩
      | succ i => exact ih h

/-- A member of what is counted is counted. -/
theorem exists_counted_of_find? {ms : Members} {k : String} {y : Json}
    (h : Table.find? (countedMembers ms) k = some y) : ∃ x : Json, y = x.counted := by
  induction ms with
  | nil => cases h
  | cons m ms ih =>
      obtain ⟨l, v⟩ := m
      rw [countedMembers, Table.find?_cons] at h
      split at h
      · exact ⟨v, (Option.some.inj h).symm⟩
      · exact ih h

/-- With its booleans counted a value has none. -/
theorem Facing.isBool_eq_false {a b u w : Json} (h : Facing a.counted b.counted u w) :
    u.isBool = false ∧ w.isBool = false := by
  generalize ha : a.counted = a' at h
  generalize hb : b.counted = b' at h
  induction h generalizing a b with
  | here => exact ⟨ha ▸ isBool_counted a, hb ▸ isBool_counted b⟩
  | item hx hy _ ih =>
      cases a <;> simp only [counted, reduceCtorEq, arr.injEq] at ha
      cases b <;> simp only [counted, reduceCtorEq, arr.injEq] at hb
      subst ha hb
      obtain ⟨x, rfl⟩ := exists_counted_of_getElem? hx
      obtain ⟨y, rfl⟩ := exists_counted_of_getElem? hy
      exact ih rfl rfl
  | member hx hy _ ih =>
      cases a <;> simp only [counted, reduceCtorEq, obj.injEq] at ha
      cases b <;> simp only [counted, reduceCtorEq, obj.injEq] at hb
      subst ha hb
      obtain ⟨x, rfl⟩ := exists_counted_of_find? hx
      obtain ⟨y, rfl⟩ := exists_counted_of_find? hy
      exact ih rfl rfl

/-- Where truth values count as numbers nothing is conflated. -/
theorem not_conflates_counted (a b : Json) : ¬ a.counted.Conflates b.counted := by
  rintro ⟨u, w, hfacing, hne, -⟩
  obtain ⟨hu, hw⟩ := hfacing.isBool_eq_false
  exact hne (hu.trans hw.symm)

/-- Equality by value is equality of JSON values with all booleans counted as numbers. -/
theorem looseEq_iff_counted (a b : Json) : a.looseEq b = true ↔ a.counted.Equal b.counted := by
  rw [equal_iff_looseEq, looseEq_counted, and_iff_left (not_conflates_counted a b)]

/-- What the equality of items is: equality of JSON values at the top, and below the top too if
booleans are counted as numbers. -/
theorem itemEq_iff_counted (a b : Json) :
    a.itemEq b = true ↔ a.isBool = b.isBool ∧ a.counted.Equal b.counted := by
  rw [itemEq_iff, looseEq_iff_counted]

end Json
end ApiTree
