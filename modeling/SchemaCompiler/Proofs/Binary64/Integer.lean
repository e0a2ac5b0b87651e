import SchemaCompiler.Binary64.Integer
import SchemaCompiler.Proofs.Word64
import Mathlib

/-! # Mantissas and exponents tell the value

A double has digits behind the point where its value is no integer, and doubles are ordered as their values
are. A word that a double is converted to is that value as long as it is an integer that fits. -/

namespace SchemaCompiler

namespace Binary64

variable {x y : Binary64}

/-! ## Parts -/

theorem magnitude_nonneg (x : Binary64) : 0 ≤ x.magnitude := by
  unfold magnitude
  positivity

/-- Behind the point there are as many binary digits as the exponent is below zero. -/
theorem magnitude_mul_of_neg (h : x.exponent < 0) :
    x.magnitude * ((2 ^ (-x.exponent).toNat : Nat) : Rat) = x.mantissa := by
  have hpower : ((2 ^ (-x.exponent).toNat : Nat) : Rat) = 2 ^ (-x.exponent) := by
    rw [Nat.cast_pow, Nat.cast_ofNat, ← zpow_natCast, Int.toNat_of_nonneg (by omega)]
  rw [magnitude, hpower, mul_assoc, ← zpow_add₀ two_ne_zero, add_neg_cancel, zpow_zero, mul_one]

theorem magnitude_eq_whole (h : x.hasFraction = false) : x.magnitude = x.whole := by
  by_cases hexponent : 0 ≤ x.exponent
  · have hpower : (2 : Rat) ^ x.exponent = 2 ^ x.exponent.toNat := by
      rw [← zpow_natCast, Int.toNat_of_nonneg hexponent]
    rw [magnitude, whole, if_pos hexponent, Nat.shiftLeft_eq, hpower]
    push_cast
    rfl
  · have hnegative : x.exponent < 0 := Int.not_le.mp hexponent
    have hback : x.whole * 2 ^ (-x.exponent).toNat = x.mantissa := by
      simpa [hasFraction, hnegative, Nat.shiftLeft_eq] using h
    have hvalue := magnitude_mul_of_neg hnegative
    rw [← hback, Nat.cast_mul] at hvalue
    exact mul_right_cancel₀ (by positivity) hvalue

/-- A double has no digits behind the point where its distance from zero is a natural number. -/
theorem hasFraction_eq_false {n : Nat} (h : x.magnitude = n) : x.hasFraction = false := by
  by_cases hnegative : x.exponent < 0
  · have hvalue := magnitude_mul_of_neg hnegative
    rw [h] at hvalue
    have hmantissa : n * 2 ^ (-x.exponent).toNat = x.mantissa := by exact_mod_cast hvalue
    have hwhole : x.whole = n := by
      rw [whole, if_neg (Int.not_le.mpr hnegative), Nat.shiftRight_eq_div_pow, ← hmantissa]
      exact Nat.mul_div_cancel n (by positivity)
    simp [hasFraction, hwhole, hmantissa, Nat.shiftLeft_eq]
  · simp [hasFraction, hnegative]

theorem toRat_eq_signedWhole (h : x.hasFraction = false) : x.toRat = x.signedWhole := by
  rw [toRat, signedWhole, magnitude_eq_whole h]
  split
  · push_cast
    rfl
  · push_cast
    rfl

theorem abs_toRat (x : Binary64) : |x.toRat| = x.magnitude := by
  rw [toRat]
  split
  · rw [abs_neg, abs_of_nonneg x.magnitude_nonneg]
  · exact abs_of_nonneg x.magnitude_nonneg

/-- There are digits behind the point where the value is no integer. -/
theorem hasFraction_iff : x.hasFraction ↔ ¬∃ n : Int, x.toRat = n := by
  constructor
  · rintro hfraction ⟨n, hn⟩
    have hmagnitude : x.magnitude = n.natAbs := by
      rw [← abs_toRat, hn, Nat.cast_natAbs, Int.cast_abs]
    rw [hasFraction_eq_false hmagnitude] at hfraction
    cases hfraction
  · intro hnone
    by_contra hfraction
    exact hnone ⟨x.signedWhole, toRat_eq_signedWhole (eq_false_of_ne_true hfraction)⟩

/-! ## Order -/

/-- The greater exponent has the greater distance from zero, for the double that has it is normal. -/
theorem magnitude_lt_of_exponent_lt (h : x.exponent < y.exponent) : x.magnitude < y.magnitude := by
  obtain ⟨hmantissa, hleast, -, -⟩ := x.canonical
  have hnormal : normalMantissa ≤ y.mantissa := y.canonical.2.2.2.resolve_right (by omega)
  have hpower : (0 : Rat) < 2 ^ x.exponent := by positivity
  calc x.magnitude < mantissaBound * 2 ^ x.exponent :=
        mul_lt_mul_of_pos_right (by exact_mod_cast hmantissa) hpower
    _ = normalMantissa * 2 ^ (x.exponent + 1) := by
        rw [zpow_add_one₀ two_ne_zero, mantissaBound, normalMantissa]
        push_cast
        ring
    _ ≤ normalMantissa * 2 ^ y.exponent :=
        mul_le_mul_of_nonneg_left (zpow_le_zpow_right₀ one_le_two h) (Nat.cast_nonneg _)
    _ ≤ y.magnitude :=
        mul_le_mul_of_nonneg_right (by exact_mod_cast hnormal) (by positivity)

theorem isWithin_iff : x.isWithin y ↔ x.magnitude ≤ y.magnitude := by
  simp only [isWithin, Bool.or_eq_true, Bool.and_eq_true, decide_eq_true_eq]
  rcases lt_trichotomy x.exponent y.exponent with hless | hsame | hgreater
  · simp [hless, (magnitude_lt_of_exponent_lt hless).le]
  · have hpower : (0 : Rat) < 2 ^ y.exponent := by positivity
    rw [magnitude, magnitude, hsame, mul_le_mul_iff_left₀ hpower, Nat.cast_le]
    simp
  · simp [hgreater.not_gt, hgreater.ne', (magnitude_lt_of_exponent_lt hgreater).not_ge]

theorem magnitude_eq_zero_iff : x.magnitude = 0 ↔ x.mantissa = 0 := by
  rw [magnitude, mul_eq_zero, Nat.cast_eq_zero, or_iff_left (zpow_ne_zero _ two_ne_zero)]

theorem isAtMost_iff : x.isAtMost y ↔ x.toRat ≤ y.toRat := by
  have hx := x.magnitude_nonneg
  have hy := y.magnitude_nonneg
  rw [isAtMost, toRat, toRat]
  cases hxsign : x.negative <;> cases hysign : y.negative <;>
    simp only [Bool.false_eq_true, if_false, if_true, Bool.and_eq_true, decide_eq_true_eq]
  · exact isWithin_iff
  · rw [← magnitude_eq_zero_iff, ← magnitude_eq_zero_iff]
    constructor
    · rintro ⟨hzero, hzero'⟩
      rw [hzero, hzero', neg_zero]
    · intro hle
      exact ⟨by linarith, by linarith⟩
  · simp only [true_iff]
    linarith
  · rw [isWithin_iff, neg_le_neg_iff]

theorem toRat_abs (x : Binary64) : x.abs.toRat = |x.toRat| := by
  rw [abs_toRat]
  rfl

/-! ## Words -/

/-- A double that is an integer is converted to the word for it, if there is one. -/
theorem toInt_toInt64 (h : Word64.fitsSigned x.signedWhole) : x.toInt64.toInt = x.signedWhole := by
  obtain ⟨hleast, hgreatest⟩ := Word64.fitsSigned_iff.mp h
  exact Int64.toInt_ofIntClamp hleast (Int.le_sub_one_of_lt hgreatest)

end Binary64

end SchemaCompiler
