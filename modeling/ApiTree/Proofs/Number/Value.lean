import ApiTree.Number.Basic
import Mathlib.Algebra.Order.Field.Rat
import Mathlib.Algebra.Order.Field.Power
import Mathlib.Data.Int.Cast.Lemmas

/-!
# ApiTree.Proofs.Number.Value

A place has a value: a rational number between the two infinities, or one of
them.  Two places compare as their values do (`Place.cmp_eq_iff`,
`Place.cmp_lt_iff`).  So equality by value is symmetric and transitive
(`Number.same_comm`, `Number.same_trans`); it is not reflexive, because "not a
number" equals nothing.
-/

namespace ApiTree

/-- A power of integers is the power of rationals. -/
theorem powerOf_cast (base : Nat) {e : Int} (h : 0 ≤ e) :
    (powerOf base e : ℚ) = (base : ℚ) ^ e := by
  obtain ⟨n, rfl⟩ := Int.eq_ofNat_of_zero_le h
  rw [zpow_natCast]
  exact Nat.cast_pow base n

namespace Number

namespace Place

/-- The value of a place; the dyadic place `m`, `e` is the number `m * 2 ^ e`. -/
def value : Place → WithBot (WithTop ℚ)
  | .below => ⊥
  | .dyadic m e => ((m * 2 ^ e : ℚ) : WithTop ℚ)
  | .above => (⊤ : WithTop ℚ)

/-- Bringing a dyadic number to a lower exponent keeps its value. -/
theorem dyadic_lowered (m : Int) {e low : Int} (h : low ≤ e) :
    (m * 2 ^ e : ℚ) = (m * powerOf 2 (e - low) : Int) * (2 : ℚ) ^ low := by
  have hpow : ((powerOf 2 (e - low) : Int) : ℚ) * 2 ^ low = 2 ^ e := by
    rw [Int.cast_natCast, powerOf_cast 2 (Int.sub_nonneg_of_le h), Nat.cast_ofNat,
      ← zpow_add₀ (by norm_num), Int.sub_add_cancel]
  rw [Int.cast_mul, mul_assoc, hpow]

/-- Dyadic places compare as equal exactly if their values are. -/
theorem cmp_dyadic_eq_iff (m e m' e' : Int) :
    cmp (.dyadic m e) (.dyadic m' e') = .eq ↔ (m * 2 ^ e : ℚ) = m' * 2 ^ e' := by
  have hpos : (2 : ℚ) ^ min e e' ≠ 0 := (zpow_pos (by norm_num) _).ne'
  rw [dyadic_lowered m (Int.min_le_left e e'), dyadic_lowered m' (Int.min_le_right e e'),
    mul_left_inj' hpos, Int.cast_inj]
  exact Int.compare_eq_eq

/-- Places compare as equal exactly if their values are. -/
theorem cmp_eq_iff (p q : Place) : p.cmp q = .eq ↔ p.value = q.value := by
  cases p <;> cases q
  case dyadic.dyadic m e m' e' =>
    rw [cmp_dyadic_eq_iff, value, value, WithBot.coe_inj, WithTop.coe_inj]
  all_goals
    simp only [cmp, value, reduceCtorEq, WithBot.bot_ne_coe, WithBot.coe_ne_bot, WithBot.coe_inj,
      WithTop.coe_ne_top, WithTop.top_ne_coe]

/-- Dyadic places compare as less exactly if their values are. -/
theorem cmp_dyadic_lt_iff (m e m' e' : Int) :
    cmp (.dyadic m e) (.dyadic m' e') = .lt ↔ (m * 2 ^ e : ℚ) < m' * 2 ^ e' := by
  have hpos : (0 : ℚ) < 2 ^ min e e' := zpow_pos (by norm_num) _
  rw [dyadic_lowered m (Int.min_le_left e e'), dyadic_lowered m' (Int.min_le_right e e'),
    mul_lt_mul_iff_left₀ hpos, Int.cast_lt]
  exact Int.compare_eq_lt

/-- Places compare as less exactly if their values are. -/
theorem cmp_lt_iff (p q : Place) : p.cmp q = .lt ↔ p.value < q.value := by
  cases p <;> cases q
  case dyadic.dyadic m e m' e' =>
    rw [cmp_dyadic_lt_iff, value, value, WithBot.coe_lt_coe, WithTop.coe_lt_coe]
  case dyadic.above m e =>
    exact iff_of_true rfl (WithBot.coe_lt_coe.2 (WithTop.coe_lt_top _))
  case below.dyadic m e => exact iff_of_true rfl (WithBot.bot_lt_coe _)
  all_goals simp [cmp, value]

end Place

/-- The value of a number; "not a number" has none. -/
def value? (a : Number) : Option (WithBot (WithTop ℚ)) := a.place?.map Place.value

/-- Strict order by value. -/
def Lt (a b : Number) : Prop := ∃ p q, a.value? = some p ∧ b.value? = some q ∧ p < q

/-- Weak order by value. -/
def Le (a b : Number) : Prop := ∃ p q, a.value? = some p ∧ b.value? = some q ∧ p ≤ q

/-- The test for less decides the order of numbers. -/
theorem below_iff (a b : Number) : a.below b = true ↔ a.Lt b := by
  cases ha : a.place? <;> cases hb : b.place? <;>
    simp [below, cmp?, Lt, value?, ha, hb, Place.cmp_lt_iff]

/-- Two numbers are equal by value when they lie somewhere, at one value. -/
theorem same_iff (a b : Number) :
    a.same b = true ↔ ∃ p q, a.place? = some p ∧ b.place? = some q ∧ p.value = q.value := by
  cases ha : a.place? <;> cases hb : b.place? <;> simp [same, cmp?, ha, hb, Place.cmp_eq_iff]

/-- The test for at most decides the order of numbers. -/
theorem atMost_iff (a b : Number) : a.atMost b = true ↔ a.Le b := by
  have hsplit : a.Le b ↔ a.Lt b ∨ a.same b = true := by
    rw [same_iff]
    constructor
    · rintro ⟨p, q, hp, hq, hle⟩
      rcases hle.lt_or_eq with hlt | heq
      · exact .inl ⟨p, q, hp, hq, hlt⟩
      · obtain ⟨p', hp', rfl⟩ := Option.map_eq_some_iff.1 hp
        obtain ⟨q', hq', rfl⟩ := Option.map_eq_some_iff.1 hq
        exact .inr ⟨p', q', hp', hq', heq⟩
    · rintro (⟨p, q, hp, hq, hlt⟩ | ⟨p, q, hp, hq, heq⟩)
      · exact ⟨p, q, hp, hq, hlt.le⟩
      · exact ⟨_, _, Option.map_eq_some_iff.2 ⟨p, hp, rfl⟩,
          Option.map_eq_some_iff.2 ⟨q, hq, rfl⟩, heq.le⟩
  rw [atMost, Bool.or_eq_true, below_iff, hsplit]

theorem same_comm (a b : Number) : a.same b = b.same a := by
  rw [Bool.eq_iff_iff, same_iff, same_iff]
  constructor <;> rintro ⟨p, q, hp, hq, h⟩ <;> exact ⟨q, p, hq, hp, h.symm⟩

theorem same_trans {a b c : Number} (hab : a.same b = true) (hbc : b.same c = true) :
    a.same c = true := by
  obtain ⟨p, q, hp, hq, hpq⟩ := (same_iff a b).1 hab
  obtain ⟨q', r, hq', hr, hqr⟩ := (same_iff b c).1 hbc
  obtain rfl : q = q' := Option.some.inj (hq.symm.trans hq')
  exact (same_iff a c).2 ⟨p, r, hp, hr, hpq.trans hqr⟩

/-- Integers are ordered as integers. -/
theorem below_int (a b : ℤ) : (Number.int a).below (.int b) = true ↔ a < b := by
  have hpower : powerOf 2 0 = 1 := rfl
  simp only [below, cmp?, place?, Place.cmp, Option.bind_eq_bind, Option.bind_some, Option.pure_def,
    min_self, sub_self, hpower, Nat.cast_one, mul_one, beq_iff_eq, Option.some.injEq]
  exact compare_lt_iff_lt

/-- Integers are less as integers. -/
theorem int_lt_iff (a b : ℤ) : (Number.int a).Lt (.int b) ↔ a < b := by
  rw [← below_iff, below_int]

/-- Integers are at most as integers. -/
theorem int_le_iff (a b : ℤ) : (Number.int a).Le (.int b) ↔ a ≤ b := by
  rw [← atMost_iff, atMost, Bool.or_eq_true, below_int, same_iff]
  simp [place?, Place.value, le_iff_lt_or_eq]

end Number
end ApiTree
