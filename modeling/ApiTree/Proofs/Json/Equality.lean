import ApiTree.Document.Basic
import ApiTree.Proofs.Number.Value
import ApiTree.Proofs.Table.Merge

/-!
# ApiTree.Proofs.Json.Equality

Equality by value is symmetric and transitive on all JSON values
(`Json.looseEq_comm`, `Json.looseEq_trans`), and so is the equality of optional
schemas.  A value that holds "not a number" is not equal to itself, so neither
relation is reflexive.

Objects are taken as functions from names to values: two objects are equal when
each name has equal values in both or a value in neither
(`Json.looseEq_obj_iff`).  Structural equality is equality, so equality of values is decidable.
-/

namespace ApiTree

namespace Json

/-! ## structural equality -/

mutual

/-- Values that are compared as equal are the same. -/
theorem eq_of_beq_eq_true : ∀ {a b : Json}, beq a b = true → a = b
  | .null, b => by cases b <;> simp [beq]
  | .bool a, b => by cases b <;> simp [beq]
  | .int a, b => by cases b <;> simp [beq]
  | .float a, b => by cases b <;> simp [beq]
  | .str a, b => by cases b <;> simp [beq]
  | .arr a, b => by
      cases b <;> simp only [beq, arr.injEq, Bool.false_eq_true, false_imp_iff]
      exact eq_of_beqList
  | .obj a, b => by
      cases b <;> simp only [beq, obj.injEq, Bool.false_eq_true, false_imp_iff]
      exact eq_of_beqMembers

/-- Lists of values that are compared as equal are the same. -/
theorem eq_of_beqList : ∀ {as bs : List Json}, beqList as bs = true → as = bs
  | [], [] => fun _ => rfl
  | [], _ :: _ => by simp [beqList]
  | _ :: _, [] => by simp [beqList]
  | a :: as, b :: bs => by
      rw [beqList, Bool.and_eq_true]
      rintro ⟨hhead, htail⟩
      rw [eq_of_beq_eq_true hhead, eq_of_beqList htail]

/-- Members that are compared as equal are the same. -/
theorem eq_of_beqMembers : ∀ {as bs : List (String × Json)}, beqMembers as bs = true → as = bs
  | [], [] => fun _ => rfl
  | [], _ :: _ => by simp [beqMembers]
  | _ :: _, [] => by simp [beqMembers]
  | (k, a) :: as, (l, b) :: bs => by
      rw [beqMembers, Bool.and_eq_true, Bool.and_eq_true, beq_iff_eq]
      rintro ⟨⟨rfl, hhead⟩, htail⟩
      rw [eq_of_beq_eq_true hhead, eq_of_beqMembers htail]

end

mutual

theorem beq_refl : ∀ a : Json, beq a a = true
  | .null => rfl
  | .bool a => by simp [beq]
  | .int a => by simp [beq]
  | .float a => by simp [beq]
  | .str a => by simp [beq]
  | .arr a => beqList_refl a
  | .obj a => beqMembers_refl a

theorem beqList_refl : ∀ as : List Json, beqList as as = true
  | [] => rfl
  | a :: as => by rw [beqList, beq_refl, beqList_refl]; rfl

theorem beqMembers_refl : ∀ as : List (String × Json), beqMembers as as = true
  | [] => rfl
  | (k, a) :: as => by rw [beqMembers, beq_refl, beqMembers_refl, beq_self_eq_true]; rfl

end

instance : LawfulBEq Json where
  eq_of_beq h := eq_of_beq_eq_true h
  rfl := beq_refl _

instance : DecidableEq Json := instDecidableEqOfLawfulBEq

/-! ## objects -/

/-- A member is smaller than the object that it is in. -/
theorem sizeOf_lt_of_find? {ms : Members} {k : String} {v : Json}
    (h : Table.find? ms k = some v) : sizeOf v < sizeOf (Json.obj ms) := by
  have hmem := List.sizeOf_lt_of_mem (Table.mem_of_find? h)
  simp only [Prod.mk.sizeOf_spec, obj.sizeOf_spec] at *
  omega

/-- `looseSub` looks at the first member of each name that it has not met. -/
theorem looseSub_iff (seen : List String) (ms ns : Members) :
    looseSub seen ms ns = true ↔
      ∀ k, k ∉ seen → ∀ v, Table.find? ms k = some v →
        ∃ w, Table.find? ns k = some w ∧ looseEq v w = true := by
  induction ms generalizing seen with
  | nil => simp [looseSub]
  | cons m ms ih =>
      obtain ⟨l, u⟩ := m
      have hstep : looseSub seen ((l, u) :: ms) ns = true ↔
          (l ∈ seen ∨ ∃ w, Table.find? ns l = some w ∧ looseEq u w = true) ∧
            looseSub (l :: seen) ms ns = true := by
        rw [looseSub, Bool.and_eq_true, Bool.or_eq_true, List.contains_iff_mem, ← Table.find?]
        cases Table.find? ns l <;> simp
      rw [hstep, ih]
      constructor
      · rintro ⟨hl, hrest⟩ k hk v hv
        rw [Table.find?_cons] at hv
        by_cases hkl : k = l
        · subst hkl
          simp only [beq_self_eq_true, if_true, Option.some.injEq] at hv
          subst hv
          exact hl.resolve_left hk
        · simp only [beq_iff_eq, hkl, if_false] at hv
          exact hrest k (by simp [hk, hkl]) v hv
      · intro h
        constructor
        · by_cases hl : l ∈ seen
          · exact .inl hl
          · exact .inr (h l hl u (by simp [Table.find?_cons]))
        · intro k hk v hv
          rw [List.mem_cons, not_or] at hk
          exact h k hk.2 v (by simpa [Table.find?_cons, hk.1] using hv)

/-- Objects are found equal if they have the same names and are equal under each. -/
theorem looseEq_obj_iff (ms ns : Members) :
    looseEq (.obj ms) (.obj ns) = true ↔
      (∀ k v, Table.find? ms k = some v → ∃ w, Table.find? ns k = some w ∧ looseEq v w = true) ∧
      ∀ k w, Table.find? ns k = some w → ∃ v, Table.find? ms k = some v := by
  have hnames : (ns.all fun n => Table.has ms n.1) = true ↔
      ∀ k w, Table.find? ns k = some w → ∃ v, Table.find? ms k = some v := by
    rw [List.all_eq_true]
    constructor
    · intro h k w hk
      exact (Table.has_iff_find? _ _).1 (h (k, w) (Table.mem_of_find? hk))
    · rintro h ⟨k, w⟩ hmem
      obtain ⟨w', hw'⟩ := (Table.has_iff_find? ns k).1
        (List.any_eq_true.2 ⟨(k, w), hmem, beq_self_eq_true k⟩)
      exact (Table.has_iff_find? _ _).2 (h k w' hw')
  rw [looseEq, Bool.and_eq_true, hnames, looseSub_iff]
  simp

/-! ## numbers and lists -/

/-- A value that is a number, or counts as one, equals what counts as the same
number. -/
theorem looseEq_of_toNumber? {a : Json} {n : Number} (h : a.toNumber? = some n) (b : Json) :
    looseEq a b = true ↔ ∃ m, b.toNumber? = some m ∧ n.same m = true := by
  cases a <;> simp only [toNumber?, reduceCtorEq, Option.some.injEq] at h <;> subst h <;>
    simp only [looseEq] <;> cases b.toNumber? <;> simp

/-- Lists are found equal if they are as long and equal at each place. -/
theorem looseEqList_iff (xs ys : List Json) :
    looseEqList xs ys = true ↔ xs.length = ys.length ∧
      ∀ (i : Nat) x y, xs[i]? = some x → ys[i]? = some y → looseEq x y = true := by
  induction xs generalizing ys with
  | nil => cases ys <;> simp [looseEqList]
  | cons x xs ih =>
      cases ys with
      | nil => simp [looseEqList]
      | cons y ys =>
          rw [looseEqList, Bool.and_eq_true, ih]
          constructor
          · rintro ⟨hxy, hlen, htail⟩
            refine ⟨by simpa using hlen, fun i u v hu hv => ?_⟩
            cases i with
            | zero => simp_all
            | succ i => exact htail i u v (by simpa using hu) (by simpa using hv)
          · rintro ⟨hlen, h⟩
            exact ⟨h 0 x y rfl rfl, by simpa using hlen, fun i u v hu hv => h (i + 1) u v hu hv⟩

/-- An item is smaller than the array that it is in. -/
theorem sizeOf_lt_of_getElem? {xs : List Json} {i : Nat} {x : Json} (h : xs[i]? = some x) :
    sizeOf x < sizeOf (Json.arr xs) := by
  have hmem := List.sizeOf_lt_of_mem (List.mem_of_getElem? h)
  simp only [arr.sizeOf_spec]
  omega

/-! ## symmetry and transitivity -/

/-- Values that are equal are of one form, or both count as numbers. -/
theorem looseEq_cases {a b : Json} (h : looseEq a b = true) :
    (a = .null ∧ b = .null) ∨ (∃ s, a = .str s ∧ b = .str s) ∨
      (∃ xs ys, a = .arr xs ∧ b = .arr ys) ∨ (∃ ms ns, a = .obj ms ∧ b = .obj ns) ∨
      ∃ n m, a.toNumber? = some n ∧ b.toNumber? = some m ∧ n.same m = true := by
  cases a with
  | null => cases b <;> simp_all [looseEq]
  | str s => cases b <;> simp_all [looseEq]
  | arr xs => cases b <;> simp_all [looseEq]
  | obj ms => cases b <;> simp_all [looseEq]
  | bool v | int n | float x =>
      obtain ⟨m, hm, hsame⟩ := (looseEq_of_toNumber? rfl b).1 h
      exact .inr (.inr (.inr (.inr ⟨_, m, rfl, hm, hsame⟩)))

theorem looseEq_symm {a b : Json} (h : looseEq a b = true) : looseEq b a = true := by
  obtain ⟨rfl, rfl⟩ | ⟨s, rfl, rfl⟩ | ⟨xs, ys, rfl, rfl⟩ | ⟨ms, ns, rfl, rfl⟩ |
    ⟨n, m, hn, hm, hsame⟩ := looseEq_cases h
  · rfl
  · exact h
  · rw [looseEq, looseEqList_iff] at h ⊢
    refine ⟨h.1.symm, fun i y x hy hx => ?_⟩
    have := sizeOf_lt_of_getElem? hx
    exact looseEq_symm (h.2 i x y hx hy)
  · obtain ⟨hsub, hnames⟩ := (looseEq_obj_iff ms ns).1 h
    refine (looseEq_obj_iff ns ms).2 ⟨fun k w hw => ?_, fun k v hv => ?_⟩
    · obtain ⟨v, hv⟩ := hnames k w hw
      obtain ⟨w', hw', hvw⟩ := hsub k v hv
      obtain rfl : w' = w := Option.some.inj (hw'.symm.trans hw)
      have := sizeOf_lt_of_find? hv
      exact ⟨v, hv, looseEq_symm hvw⟩
    · obtain ⟨w, hw, -⟩ := hsub k v hv
      exact ⟨w, hw⟩
  · exact (looseEq_of_toNumber? hm a).2 ⟨n, hn, by rwa [Number.same_comm]⟩
termination_by sizeOf a

theorem looseEq_comm (a b : Json) : looseEq a b = looseEq b a := by
  rw [Bool.eq_iff_iff]
  exact ⟨looseEq_symm, looseEq_symm⟩

/-- To be found equal is transitive. -/
theorem looseEq_trans {a b c : Json} (hab : looseEq a b = true) (hbc : looseEq b c = true) :
    looseEq a c = true := by
  obtain ⟨rfl, rfl⟩ | ⟨s, rfl, rfl⟩ | ⟨xs, ys, rfl, rfl⟩ | ⟨ms, ns, rfl, rfl⟩ |
    ⟨n, m, hn, hm, hsame⟩ := looseEq_cases hab
  · exact hbc
  · exact hbc
  · cases c with
    | arr zs =>
        rw [looseEq, looseEqList_iff] at hab hbc ⊢
        refine ⟨hab.1.trans hbc.1, fun i x z hx hz => ?_⟩
        have hi : i < ys.length := by
          rw [← hab.1]
          exact (List.getElem?_eq_some_iff.1 hx).1
        have hy : ys[i]? = some ys[i] := List.getElem?_eq_getElem hi
        have := sizeOf_lt_of_getElem? hx
        exact looseEq_trans (hab.2 i x _ hx hy) (hbc.2 i _ z hy hz)
    | _ => simp [looseEq] at hbc
  · cases c with
    | obj os =>
        obtain ⟨hsub, hnames⟩ := (looseEq_obj_iff ms ns).1 hab
        obtain ⟨hsub', hnames'⟩ := (looseEq_obj_iff ns os).1 hbc
        refine (looseEq_obj_iff ms os).2 ⟨fun k v hv => ?_, fun k u hu => ?_⟩
        · obtain ⟨w, hw, hvw⟩ := hsub k v hv
          obtain ⟨u, hu, hwu⟩ := hsub' k w hw
          have := sizeOf_lt_of_find? hv
          exact ⟨u, hu, looseEq_trans hvw hwu⟩
        · obtain ⟨w, hw⟩ := hnames' k u hu
          exact hnames k w hw
    | _ => simp [looseEq] at hbc
  · obtain ⟨l, hl, hml⟩ := (looseEq_of_toNumber? hm c).1 hbc
    exact (looseEq_of_toNumber? hn c).2 ⟨l, hl, Number.same_trans hsame hml⟩
termination_by sizeOf a

end Json

/-! ## schemas -/

namespace Schema

theorem sameOption_comm (a b : Option Schema) : sameOption a b = sameOption b a := by
  cases a <;> cases b <;> simp [sameOption, same, Json.looseEq_comm]

theorem sameOption_trans {a b c : Option Schema} (hab : sameOption a b = true)
    (hbc : sameOption b c = true) : sameOption a c = true := by
  cases a <;> cases b <;> cases c <;> simp_all only [sameOption, reduceCtorEq]
  exact Json.looseEq_trans hab hbc

/-- Schemas that are equal, or equal as JSON values.  The two differ for what is not a
number, which as a value equals nothing. -/
def Alike (a b : Schema) : Prop := a = b ∨ same a b = true

instance (a b : Schema) : Decidable (a.Alike b) := inferInstanceAs (Decidable (_ ∨ _))

end Schema
end ApiTree
