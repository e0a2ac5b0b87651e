import SchemaCompiler.Binary64.Shortest
import SchemaCompiler.Proofs.Binary64.Rounding

/-! # Shortest decimals read back

A decimal is read by its value alone: how many digits it has and where its point stands does not matter.
The search for the shortest decimal only takes one that reads back, and where it finds none every digit of
the double is kept. -/

namespace SchemaCompiler

/-- The number that a decimal stands for. -/
def Decimal.value (d : Decimal) : Rat :=
  d.digits * 10 ^ d.exponent

namespace Binary64

/-! ## Reading by value -/

/-- A number lies where its digits and its exponent put it among the powers of ten. -/
theorem zpow_size_bounds {digits : Nat} (h : digits ≠ 0) (e : Int) :
    (10 : Rat) ^ (e + (Nat.toDigits 10 digits).length - 1) ≤ digits * 10 ^ e ∧
      (digits * 10 ^ e : Rat) < 10 ^ (e + (Nat.toDigits 10 digits).length) := by
  have hlength : 0 < (Nat.toDigits 10 digits).length := Nat.length_toDigits_pos
  generalize hL : (Nat.toDigits 10 digits).length = L at hlength ⊢
  have hhigh : digits < 10 ^ L := by
    rw [← Nat.length_toDigits_le_iff (by decide) hlength, hL]
  have hlow : 10 ^ (L - 1) ≤ digits := by
    by_cases hone : L = 1
    · rw [hone]
      exact Nat.pos_of_ne_zero h
    · by_contra hless
      have hshorter := (Nat.length_toDigits_le_iff (by decide) (by omega)).mpr (not_le.mp hless)
      omega
  have hsum : e + (L : Int) - 1 = e + (L - 1 : Nat) := by omega
  rw [hsum, zpow_add₀ (by decide), zpow_add₀ (by decide), zpow_natCast, zpow_natCast, mul_comm]
  rw [mul_comm ((10 : Rat) ^ e)]
  constructor
  · gcongr
    exact_mod_cast hlow
  · gcongr
    exact_mod_cast hhigh

/-- The double nearest to a signed magnitude. Magnitudes far outside the range of doubles are settled at
once. -/
def ofValue? (negative : Bool) (q : Rat) : Option Binary64 :=
  if q < 10 ^ (-401 : Int) then some (zero negative)
  else if 10 ^ (400 : Int) ≤ q then none
  else ofMagnitude? negative q

/-- A decimal is read by its value. -/
theorem ofDecimal?_eq_ofValue? (negative : Bool) (digits : Nat) (e : Int) :
    ofDecimal? negative digits e = ofValue? negative (digits * 10 ^ e) := by
  unfold ofDecimal? ofValue?
  simp only
  by_cases hzero : digits = 0
  · have hsmall : (0 : Rat) < 10 ^ (-401 : Int) := zpow_pos (by decide) _
    rw [if_pos (.inl hzero), hzero, Nat.cast_zero, zero_mul, if_pos hsmall]
  · obtain ⟨hlow, hhigh⟩ := zpow_size_bounds hzero e
    generalize e + ((Nat.toDigits 10 digits).length : Int) = size at hlow hhigh ⊢
    have hsmall : size < -400 ↔ (digits * 10 ^ e : Rat) < 10 ^ (-401 : Int) := by
      constructor
      · intro h
        exact hhigh.trans_le (zpow_le_zpow_right₀ (by decide) (by omega))
      · intro h
        have := (zpow_lt_zpow_iff_right₀ (by decide)).mp (hlow.trans_lt h)
        omega
    have hlarge : 400 < size ↔ 10 ^ (400 : Int) ≤ (digits * 10 ^ e : Rat) := by
      constructor
      · intro h
        exact (zpow_le_zpow_right₀ (by decide) (by omega)).trans hlow
      · intro h
        exact (zpow_lt_zpow_iff_right₀ (by decide)).mp (h.trans_lt hhigh)
    simp only [hzero, false_or, hsmall, hlarge]

/-- Doubles other than zero lie well inside the range in which decimals are rounded. -/
theorem magnitude_bounds {x : Binary64} (h : x.mantissa ≠ 0) :
    10 ^ (-401 : Int) ≤ x.magnitude ∧ x.magnitude < 10 ^ (400 : Int) := by
  obtain ⟨hbound, hleast, hgreatest, -⟩ := x.canonical
  have height : ∀ k : Nat, (2 : Rat) ^ (3 * k) ≤ 10 ^ k := by
    intro k
    rw [pow_mul]
    gcongr
    norm_num
  have hpos : (0 : Rat) < 2 ^ x.exponent := zpow_pos two_pos _
  have hmantissa : (1 : Rat) ≤ x.mantissa := by exact_mod_cast Nat.pos_of_ne_zero h
  have hmantissa' : (x.mantissa : Rat) < 2 ^ (53 : Int) := by
    have hlt : x.mantissa < 2 ^ 53 := by simpa [mantissaBound] using hbound
    exact_mod_cast hlt
  constructor
  · calc (10 : Rat) ^ (-401 : Int) ≤ 2 ^ (-(3 * 401) : Int) := by
          rw [zpow_neg, zpow_neg]
          gcongr
          exact_mod_cast height 401
      _ ≤ 2 ^ x.exponent := zpow_le_zpow_right₀ one_le_two (by omega)
      _ ≤ x.magnitude := le_mul_of_one_le_left hpos.le hmantissa
  · calc x.magnitude < 2 ^ (53 : Int) * 2 ^ x.exponent := by
          unfold magnitude
          gcongr
      _ = 2 ^ (53 + x.exponent) := (zpow_add₀ two_ne_zero _ _).symm
      _ ≤ 2 ^ (3 * 400 : Int) := zpow_le_zpow_right₀ one_le_two (by omega)
      _ ≤ 10 ^ (400 : Int) := by exact_mod_cast height 400

theorem ofValue?_magnitude {x : Binary64} (h : x.mantissa ≠ 0) :
    ofValue? x.negative x.magnitude = some x := by
  obtain ⟨hleast, hgreatest⟩ := magnitude_bounds h
  rw [ofValue?, if_neg (not_lt.mpr hleast), if_neg (not_le.mpr hgreatest), ofMagnitude?_magnitude]

/-- Zero is read as zero, with either sign. -/
theorem ofValue?_zero (negative : Bool) : ofValue? negative 0 = some (zero negative) :=
  if_pos (zpow_pos (by decide) _)

theorem eq_zero_of_mantissa {x : Binary64} (h : x.mantissa = 0) : x = zero x.negative := by
  have hexponent : x.exponent = -1074 := by
    obtain ⟨-, -, -, hnormal⟩ := x.canonical
    simp only [h, normalMantissa] at hnormal
    omega
  cases x with
  | mk negative mantissa exponent canonical =>
      cases h
      cases hexponent
      rfl

end Binary64

/-! ## Shortest decimals -/

namespace Decimal

theorem toBinary64?_eq_ofValue? (d : Decimal) (negative : Bool) :
    d.toBinary64? negative = Binary64.ofValue? negative d.value :=
  Binary64.ofDecimal?_eq_ofValue? negative d.digits d.exponent

/-- Moving zeros into the exponent does not change the value. -/
theorem value_trim (limit : Nat) (d : Decimal) : (trim limit d).value = d.value := by
  induction limit generalizing d with
  | zero => rfl
  | succ limit ih =>
      rw [trim]
      split
      · next h =>
          have hdigits : ((d.digits / 10 : Nat) * 10 : Rat) = d.digits := by
            have : d.digits / 10 * 10 = d.digits := by omega
            exact_mod_cast this
          rw [ih]
          calc ((d.digits / 10 : Nat) * 10 ^ (d.exponent + 1) : Rat)
              = (d.digits / 10 : Nat) * 10 * 10 ^ d.exponent := by
                rw [zpow_add_one₀ (by decide)]
                ring
            _ = d.value := by rw [hdigits, value]
      · rfl

end Decimal

namespace Binary64

/-- All digits of a double are its magnitude. -/
theorem value_exactDecimal (x : Binary64) : x.exactDecimal.value = x.magnitude := by
  unfold exactDecimal
  split
  · next h =>
      obtain ⟨k, hk⟩ := Int.eq_ofNat_of_zero_le h
      simp only [Decimal.value, magnitude, hk, Int.toNat_natCast, zpow_natCast]
      simp
  · next h =>
      have hexponent : x.exponent = -((-x.exponent).toNat : Int) := by omega
      generalize (-x.exponent).toNat = k at hexponent
      have hten : (10 : Rat) ^ k = 5 ^ k * 2 ^ k := by
        rw [← mul_pow]
        norm_num
      simp only [Decimal.value, magnitude, hexponent, zpow_neg, zpow_natCast, Nat.pow_eq, Nat.cast_mul,
        Nat.cast_pow, Nat.cast_ofNat]
      rw [hten]
      field_simp

/-- A decimal that the search takes reads back as the double. -/
theorem toBinary64?_of_onGrid? {x : Binary64} {scale : Int} {d : Decimal}
    (h : x.onGrid? scale = some d) : d.toBinary64? x.negative = some x := by
  simpa using List.find?_some h

/-- The shortest decimal of a double reads back as the double. -/
theorem toBinary64?_shortest {x : Binary64} (h : x.mantissa ≠ 0) :
    x.shortest.toBinary64? x.negative = some x := by
  unfold shortest
  simp only
  rw [Decimal.toBinary64?_eq_ofValue?, Decimal.value_trim, ← Decimal.toBinary64?_eq_ofValue?]
  cases hfound : (List.range 17).findSome? fun (k : Nat) => x.onGrid? (floorLog10 x.magnitude - k) with
  | some d =>
      obtain ⟨_, _, _, _, hgrid, _⟩ := List.findSome?_eq_some_iff.mp hfound
      exact toBinary64?_of_onGrid? hgrid
  | none =>
      rw [Option.getD_none, Decimal.toBinary64?_eq_ofValue?, value_exactDecimal, ofValue?_magnitude h]

theorem shortest_digits_ne_zero {x : Binary64} (h : x.mantissa ≠ 0) : x.shortest.digits ≠ 0 := by
  intro hzero
  have hreads := toBinary64?_shortest h
  rw [Decimal.toBinary64?_eq_ofValue?, Decimal.value, hzero, Nat.cast_zero, zero_mul,
    ofValue?_zero] at hreads
  exact h (congrArg mantissa (Option.some.inj hreads)).symm

end Binary64

end SchemaCompiler
