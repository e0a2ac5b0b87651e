import SchemaCompiler.Binary64
import Mathlib

/-! # Doubles round to themselves

The exponent at which a magnitude is rounded is found through the logarithms of a numerator and a
denominator. For the magnitude of a double it is the exponent of that double, where the mantissa is a whole
number and nothing is rounded at all. -/

namespace SchemaCompiler

namespace Binary64

/-! ## Logarithms -/

/-- A power of a base greater than one tells where a number lies among the powers. -/
theorem zpow_unique {b q : Rat} (hb : 1 < b) {i j : Int} (hi : b ^ i ≤ q) (hi' : q < b ^ (i + 1))
    (hj : b ^ j ≤ q) (hj' : q < b ^ (j + 1)) : i = j := by
  have hij : i < j + 1 := (zpow_lt_zpow_iff_right₀ hb).mp (hi.trans_lt hj')
  have hji : j < i + 1 := (zpow_lt_zpow_iff_right₀ hb).mp (hj.trans_lt hi')
  omega

/-- The logarithms of a numerator and a denominator give that of the fraction up to one. -/
theorem zpow_log2_bounds {n d : Nat} (hn : n ≠ 0) (hd : d ≠ 0) :
    (2 : Rat) ^ ((n.log2 : Int) - d.log2 - 1) ≤ n / d ∧
      (n / d : Rat) < 2 ^ ((n.log2 : Int) - d.log2 + 1) := by
  have hn₁ : (2 : Rat) ^ n.log2 ≤ n := by exact_mod_cast Nat.log2_self_le hn
  have hn₂ : (n : Rat) < 2 ^ (n.log2 + 1) := by exact_mod_cast Nat.lt_log2_self
  have hd₁ : (2 : Rat) ^ d.log2 ≤ d := by exact_mod_cast Nat.log2_self_le hd
  have hd₂ : (d : Rat) < 2 ^ (d.log2 + 1) := by exact_mod_cast Nat.lt_log2_self
  have hpos : (0 : Rat) < d := by exact_mod_cast Nat.pos_of_ne_zero hd
  have hlow : (2 : Rat) ^ ((n.log2 : Int) - d.log2 - 1) = 2 ^ n.log2 / 2 ^ (d.log2 + 1) := by
    rw [sub_sub, zpow_sub₀ two_ne_zero]
    norm_cast
  have hhigh : (2 : Rat) ^ ((n.log2 : Int) - d.log2 + 1) = 2 ^ (n.log2 + 1) / 2 ^ d.log2 := by
    rw [sub_add_eq_add_sub, zpow_sub₀ two_ne_zero]
    norm_cast
  rw [hlow, hhigh]
  constructor
  · gcongr
  · gcongr

/-- The logarithm of a positive magnitude is the exponent of the power below it. -/
theorem floorLog2_eq {q : Rat} {k : Int} (hlow : 2 ^ k ≤ q) (hhigh : q < 2 ^ (k + 1)) :
    floorLog2 q = k := by
  have hpos : 0 < q := (zpow_pos two_pos k).trans_le hlow
  have hnum : q.num.natAbs ≠ 0 := by
    rw [Int.natAbs_ne_zero, Rat.num_ne_zero]
    exact hpos.ne'
  have hq : (q.num.natAbs / q.den : Rat) = q := by
    have hnonneg : (q.num.natAbs : Int) = q.num := Int.natAbs_of_nonneg (Rat.num_nonneg.mpr hpos.le)
    have hcast : ((q.num.natAbs : Int) : Rat) = q.num := by rw [hnonneg]
    rw [← Int.cast_natCast, hcast, Rat.num_div_den]
  obtain ⟨hbelow, habove⟩ := zpow_log2_bounds hnum q.den_nz
  rw [hq] at hbelow habove
  unfold floorLog2
  simp only
  split
  · next hestimate => exact zpow_unique one_lt_two hestimate habove hlow hhigh
  · next hestimate =>
      refine zpow_unique one_lt_two hbelow ?_ hlow hhigh
      rw [sub_add_cancel]
      exact not_le.mp hestimate

/-- The logarithm of a double other than zero is that of its mantissa, moved by its exponent. -/
theorem floorLog2_magnitude {x : Binary64} (h : x.mantissa ≠ 0) :
    floorLog2 x.magnitude = x.mantissa.log2 + x.exponent := by
  have hlow : (2 : Rat) ^ x.mantissa.log2 ≤ x.mantissa := by exact_mod_cast Nat.log2_self_le h
  have hhigh : (x.mantissa : Rat) < 2 ^ (x.mantissa.log2 + 1) := by exact_mod_cast Nat.lt_log2_self
  apply floorLog2_eq
  · rw [zpow_add₀ two_ne_zero, magnitude, zpow_natCast]
    gcongr
  · rw [add_right_comm, zpow_add₀ two_ne_zero, magnitude]
    gcongr
    exact_mod_cast hhigh

/-! ## Rounding -/

/-- A whole number is the nearest one to itself. -/
theorem nearestEven_natCast (n : Nat) : nearestEven n = n := by
  have hfloor : (n : Rat).floor = n := Rat.floor_intCast n
  simp [nearestEven, hfloor]

/-- The magnitude of a double is rounded at its own exponent. -/
theorem roundingExponent_magnitude (x : Binary64) : roundingExponent x.magnitude = x.exponent := by
  obtain ⟨hbound, hleast, -, hnormal⟩ := x.canonical
  unfold roundingExponent
  by_cases hzero : x.mantissa = 0
  · have hexponent : x.exponent = -1074 := by
      simp only [hzero, normalMantissa] at hnormal
      omega
    simp [magnitude, hzero, hexponent]
  · have hne : x.magnitude ≠ 0 := by
      simp [magnitude, hzero, zpow_ne_zero]
    have hsmall : x.mantissa.log2 < 53 := (Nat.log2_lt hzero).mpr (by simpa [mantissaBound] using hbound)
    rw [if_neg hne, floorLog2_magnitude hzero]
    rcases hnormal with hnormal | hexponent
    · have hlarge : 52 ≤ x.mantissa.log2 :=
        (Nat.le_log2 hzero).mpr (by simpa [normalMantissa] using hnormal)
      omega
    · omega

/-- A double is what its own magnitude is rounded to. -/
theorem ofMagnitude?_magnitude (x : Binary64) : ofMagnitude? x.negative x.magnitude = some x := by
  have hpow : (2 : Rat) ^ x.exponent ≠ 0 := zpow_ne_zero _ two_ne_zero
  have hmantissa : nearestEven (x.magnitude / 2 ^ x.exponent) = x.mantissa := by
    rw [magnitude, mul_div_cancel_right₀ _ hpow, nearestEven_natCast]
  have hbound : x.mantissa ≠ mantissaBound := x.canonical.1.ne
  unfold ofMagnitude?
  simp only [roundingExponent_magnitude, hmantissa, hbound, if_false]
  exact dif_pos x.canonical

end Binary64

end SchemaCompiler
