import SchemaCompiler.Json.Basic
import SchemaCompiler.Proofs.Word64
import Mathlib.Data.Rat.Cast.Defs

/-! # Numbers held as words

An integer is held in exactly one way. Whether it is held with or without a sign, its value is the integer
that the word stands for. -/

namespace SchemaCompiler

namespace Json

namespace Number

/-- Words without a sign are words with a sign up to the greatest one of these. -/
theorem le_maxValue {n : Int64} (h : 0 ≤ n) : n.toUInt64 ≤ Int64.maxValue.toUInt64 := by
  have hvalue := Word64.toNat_toUInt64 h
  have hgreatest := n.toInt_lt
  have hbound : Int64.maxValue.toUInt64.toNat = 2 ^ 63 - 1 := rfl
  rw [UInt64.le_iff_toNat_le, hbound]
  omega

theorem value_eq_of_asInt64? {x : Number} {n : Int64} (h : x.asInt64? = some n) : x.value = n.toInt := by
  cases x with
  | unsigned w =>
      rw [asInt64?] at h
      split at h
      · next hfits =>
          cases h
          rw [value, Word64.toInt_toInt64 hfits, Int.cast_natCast]
      · cases h
  | negative w hnegative =>
      cases h
      rfl
  | real => cases h

@[simp] theorem asInt64?_ofInt64 (n : Int64) : (ofInt64 n).asInt64? = some n := by
  rw [ofInt64]
  split
  · rfl
  · next h => exact if_pos (le_maxValue (Int64.not_lt.mp h))

@[simp] theorem value_ofInt64 (n : Int64) : (ofInt64 n).value = n.toInt :=
  value_eq_of_asInt64? (asInt64?_ofInt64 n)

/-- A word without a sign that none with a sign holds is greater than all of these. -/
theorem lt_of_asInt64?_eq_none {w : UInt64} (h : (unsigned w).asInt64? = none) : 2 ^ 63 ≤ w.toNat := by
  have hbound : Int64.maxValue.toUInt64.toNat = 2 ^ 63 - 1 := rfl
  rw [asInt64?] at h
  split at h
  · cases h
  · next hless =>
      rw [UInt64.le_iff_toNat_le, hbound] at hless
      omega

end Number

end Json

end SchemaCompiler
