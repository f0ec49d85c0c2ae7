import ApiTree.Number.Multiple
import ApiTree.Proofs.Number.Value
import Mathlib.Tactic.Ring

/-!
# ApiTree.Proofs.Number.Multiple

Whole numbers and whole multiples, by value.  `Double.isWhole` finds the doubles
whose value is an integer.  Two numbers are divided in their own kind when both are
integers, and else as doubles; an integer that is no double is rounded first, so the
answer is right where nothing is rounded (`Number.isMultipleOf?_of_exact`).
-/

namespace ApiTree

/-- A common factor does not change what is a multiple of what. -/
theorem exists_eq_mul_mul_iff {p : ℚ} (hp : p ≠ 0) (a b : ℤ) :
    (∃ k : ℤ, (a * p : ℚ) = k * (b * p)) ↔ b ∣ a := by
  constructor
  · rintro ⟨k, hk⟩
    rw [← mul_assoc, mul_left_inj' hp] at hk
    exact ⟨k, by rw [mul_comm]; exact_mod_cast hk⟩
  · rintro ⟨k, rfl⟩
    exact ⟨k, by push_cast; ring⟩

namespace Double

/-- The exact value of a finite number. -/
def rational? : Double → Option ℚ
  | .finite s m e => some ((if s then -(m : ℤ) else m : ℤ) * 2 ^ e)
  | _ => none

theorem signed_dvd_signed_iff (s s' : Bool) (m m' : ℕ) :
    (if s' then -(m' : ℤ) else m') ∣ (if s then -(m : ℤ) else m) ↔ m' ∣ m := by
  cases s <;> cases s' <;> simp [Int.natCast_dvd_natCast]

theorem isWhole_negative_exponent {s : Bool} {m : ℕ} {e : ℤ} (he : ¬ 0 ≤ e) :
    isWhole (.finite s m e) = true ↔ powerOf 2 (-e) ∣ m := by
  rw [Nat.dvd_iff_mod_eq_zero, isWhole, toInt?, Option.isSome_map]
  simp only [he, if_false]
  split <;> simp_all

/-- A double is whole when its value is an integer. -/
theorem isWhole_iff (x : Double) : x.isWhole = true ↔ ∃ n : ℤ, x.rational? = some (n : ℚ) := by
  cases x with
  | nan => simp [isWhole, toInt?, rational?]
  | infinite s => simp [isWhole, toInt?, rational?]
  | finite s m e =>
      -- the power of two is a factor, or a divisor that must go into the mantissa
      by_cases he : 0 ≤ e
      · refine iff_of_true (by simp [isWhole, toInt?, he])
          ⟨(if s then -(m : ℤ) else m) * powerOf 2 e, ?_⟩
        rw [rational?, Int.cast_mul, Int.cast_natCast, powerOf_cast 2 he, Nat.cast_ofNat]
      · have hdown : ((powerOf 2 (-e) : ℤ) : ℚ) * 2 ^ e = 1 := by
          rw [Int.cast_natCast, powerOf_cast 2 (by omega), Nat.cast_ofNat,
            ← zpow_add₀ (by norm_num), neg_add_cancel, zpow_zero]
        have hdvd := signed_dvd_signed_iff s false m (powerOf 2 (-e))
        simp only [Bool.false_eq_true, if_false] at hdvd
        rw [isWhole_negative_exponent he, ← hdvd,
          ← exists_eq_mul_mul_iff (zpow_pos (by norm_num : (0 : ℚ) < 2) e).ne', hdown, rational?]
        simp only [mul_one, Option.some.injEq]

/-- Dividing two finite doubles asks whether the one value is a whole multiple of the
other. -/
theorem isMultipleOf_finite_iff (s s' : Bool) (m m' : ℕ) (e e' : ℤ) :
    isMultipleOf (.finite s m e) (.finite s' m' e') = true ↔
      ∃ k : ℤ, ((if s then -(m : ℤ) else m : ℤ) * 2 ^ e : ℚ) =
        k * ((if s' then -(m' : ℤ) else m' : ℤ) * 2 ^ e') := by
  have hpos : (2 : ℚ) ^ min e e' ≠ 0 := (zpow_pos (by norm_num) _).ne'
  have hscaled (s : Bool) (m p : ℕ) :
      (if s then -(m : ℤ) else m) * p = if s then -((m * p : ℕ) : ℤ) else (m * p : ℕ) := by
    cases s <;> simp
  rw [Number.Place.dyadic_lowered _ (Int.min_le_left e e'),
    Number.Place.dyadic_lowered _ (Int.min_le_right e e'), exists_eq_mul_mul_iff hpos,
    hscaled, hscaled, signed_dvd_signed_iff, isMultipleOf, beq_iff_eq, Nat.dvd_iff_mod_eq_zero]

/-- Doubles are divided by value. -/
theorem isMultipleOf_iff (x : Double) {y : Double} (hy : y.rational?.isSome) :
    x.isMultipleOf y = true ↔
      ∃ p q, x.rational? = some p ∧ y.rational? = some q ∧ ∃ k : ℤ, p = k * q := by
  cases y with
  | nan => simp [rational?] at hy
  | infinite => simp [rational?] at hy
  | finite s' m' e' =>
      cases x with
      | nan => simp [isMultipleOf, rational?]
      | infinite => simp [isMultipleOf, rational?]
      | finite s m e => simp [isMultipleOf_finite_iff, rational?]

end Double

namespace Number

/-- The exact value of a number, if it is finite. -/
def rational? : Number → Option ℚ
  | .int n => some n
  | .float x => x.rational?

/-- Whether a number is finite. -/
def isFinite : Number → Bool
  | .int _ => true
  | .float (.finite ..) => true
  | .float _ => false

theorem isFinite_iff (a : Number) : a.isFinite = true ↔ a.rational?.isSome = true := by
  cases a with
  | int n => simp [isFinite, rational?]
  | float x => cases x <;> simp [isFinite, rational?, Double.rational?]

/-- One number is a whole multiple of another. -/
def IsMultiple (a b : Number) : Prop :=
  ∃ p q, a.rational? = some p ∧ b.rational? = some q ∧ ∃ k : ℤ, p = k * q

/-- Whether a number keeps its value when it is taken for a double. -/
def isExact : Number → Bool
  | .int n => (Number.int n).same (.float (Double.ofInt n))
  | .float _ => true

/-- Whether the one number is divided by the other without rounding: both are
integers, or both are taken for doubles of the same value. -/
def dividesExactly : Number → Number → Bool
  | .int _, .int _ => true
  | a, b => a.isExact && b.isExact

/-- The exact value is the value, where that is finite. -/
theorem value?_eq_coe_iff (a : Number) (q : ℚ) :
    a.value? = some ((q : WithTop ℚ) : WithBot (WithTop ℚ)) ↔ a.rational? = some q := by
  cases a with
  | int n => simp [value?, place?, Place.value, rational?]
  | float x =>
      cases x with
      | nan => simp [value?, place?, rational?, Double.rational?]
      | infinite s => cases s <;> simp [value?, place?, Place.value, rational?, Double.rational?]
      | finite s m e =>
          simp only [value?, place?, Option.map_some, Place.value, Option.some.injEq,
            WithBot.coe_inj, WithTop.coe_inj, rational?, Double.rational?]

/-- An exact number is taken for a double of its own value. -/
theorem toDouble?_of_isExact {a : Number} (h : a.isExact = true) :
    ∃ x, a.toDouble? = some x ∧ x.rational? = a.rational? := by
  cases a with
  | float x => exact ⟨x, rfl, rfl⟩
  | int n =>
      have hvalue : (Number.float (Double.ofInt n)).rational? = some (n : ℚ) := by
        obtain ⟨p, q, hp, hq, hpq⟩ := (same_iff _ _).1 h
        rw [← value?_eq_coe_iff, value?, hq, Option.map_some, ← hpq, ← Option.map_some, ← hp]
        exact (value?_eq_coe_iff (.int n) n).2 rfl
      cases hx : Double.ofInt n with
      | nan => simp [hx, rational?, Double.rational?] at hvalue
      | infinite s => simp [hx, rational?, Double.rational?] at hvalue
      | finite s m e =>
          exact ⟨.finite s m e, by simp [toDouble?, Double.ofInt?, hx], by rwa [hx] at hvalue⟩

/-- Where nothing is rounded, dividing decides whether the one number is a whole multiple
of the other. -/
theorem isMultipleOf?_of_exact {a b : Number} (h : a.dividesExactly b = true)
    (hb : b.rational?.isSome) :
    ∃ whole, a.isMultipleOf? b = some whole ∧ (whole = true ↔ a.IsMultiple b) := by
  have hdoubles (hexact : (a.isExact && b.isExact) = true) :
      ∃ x y, a.toDouble? = some x ∧ b.toDouble? = some y ∧
        (x.isMultipleOf y = true ↔ a.IsMultiple b) := by
    obtain ⟨ha, hb'⟩ := Bool.and_eq_true_iff.1 hexact
    obtain ⟨x, hx, hxa⟩ := toDouble?_of_isExact ha
    obtain ⟨y, hy, hyb⟩ := toDouble?_of_isExact hb'
    exact ⟨x, y, hx, hy, by rw [Double.isMultipleOf_iff x (hyb ▸ hb), hxa, hyb, IsMultiple]⟩
  cases a with
  | int m =>
      cases b with
      | int n =>
          have hdvd := exists_eq_mul_mul_iff one_ne_zero m n
          simp only [mul_one] at hdvd
          refine ⟨_, rfl, ?_⟩
          rw [beq_iff_eq, ← Int.dvd_iff_emod_eq_zero, ← hdvd]
          simp [IsMultiple, rational?]
      | float y =>
          obtain ⟨x, y', hx, hy, hiff⟩ := hdoubles h
          exact ⟨_, by simp [isMultipleOf?, hx, hy], hiff⟩
  | float x =>
      obtain ⟨x', y, hx, hy, hiff⟩ := hdoubles (by cases b <;> exact h)
      exact ⟨_, by simp [isMultipleOf?, hx, hy], hiff⟩

end Number
end ApiTree
