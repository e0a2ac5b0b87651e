import SchemaCompiler.Word64
import Mathlib.Algebra.Group.Int.Defs
import Mathlib.Algebra.Group.Nat.Defs

/-! # Words stand for integers

Two words are the same where they stand for the same integer, and each conversion is told by the integer
that it keeps. -/

namespace SchemaCompiler

namespace Word64

/-! ## Integers that words hold -/

theorem fitsSigned_iff {n : Int} : fitsSigned n ↔ -2 ^ 63 ≤ n ∧ n < 2 ^ 63 := by
  simp only [fitsSigned, Bool.and_eq_true, decide_eq_true_eq]
  rfl

theorem fitsUnsigned_iff {n : Nat} : fitsUnsigned n ↔ n < 2 ^ 64 := by
  simp only [fitsUnsigned, Bool.and_eq_true, decide_eq_true_eq]
  unfold unsignedBound
  omega

theorem signed?_eq_some {n : Int} {w : Int64} : signed? n = some w ↔ w.toInt = n := by
  rw [signed?]
  split
  · next h =>
      obtain ⟨hleast, hgreatest⟩ := fitsSigned_iff.mp h
      rw [Option.some.injEq]
      constructor
      · rintro rfl
        exact Int64.toInt_ofInt_of_le hleast hgreatest
      · rintro rfl
        exact w.ofInt_toInt
  · next h =>
      refine ⟨nofun, ?_⟩
      rintro rfl
      exact absurd (fitsSigned_iff.mpr ⟨w.le_toInt, w.toInt_lt⟩) h

theorem unsigned?_eq_some {n : Nat} {w : UInt64} : unsigned? n = some w ↔ w.toNat = n := by
  rw [unsigned?]
  split
  · next h =>
      rw [Option.some.injEq, ← UInt64.toNat_inj, UInt64.toNat_ofNat_of_lt' (fitsUnsigned_iff.mp h)]
      exact eq_comm
  · next h =>
      refine ⟨nofun, ?_⟩
      rintro rfl
      exact absurd (fitsUnsigned_iff.mpr w.toNat_lt) h

/-! ## Words of the other kind -/

/-- A word with a sign becomes one without as long as it is not negative. -/
theorem toNat_toUInt64 {n : Int64} (h : 0 ≤ n) : (n.toUInt64.toNat : Int) = n.toInt := by
  rw [Int64.toNat_toUInt64_of_le h]
  exact Int.toNat_of_nonneg (Int64.le_iff_toInt_le.mp h)

/-- A word without a sign becomes one with a sign as long as it is not too large. -/
theorem toInt_toInt64 {n : UInt64} (h : n ≤ Int64.maxValue.toUInt64) : n.toInt64.toInt = n.toNat := by
  have hless : n.toNat ≤ 9223372036854775807 := UInt64.le_iff_toNat_le.mp h
  refine BitVec.toInt_eq_toNat_of_lt (x := n.toBitVec) ?_
  rw [UInt64.toNat_toBitVec]
  omega

theorem toNat_unsignedAbs (n : Int64) : (unsignedAbs n).toNat = n.toInt.natAbs := by
  have habs : (unsignedAbs n).toNat = n.toBitVec.abs.toNat := rfl
  have hint : n.toInt = n.toBitVec.toInt := rfl
  have hless := n.toBitVec.isLt
  rw [habs, hint, BitVec.toNat_abs, BitVec.toInt_eq_msb_cond]
  split
  · omega
  · omega

/-- A natural number becomes a word with a sign as long as it is not too large. -/
theorem toInt_natCast {n : Nat} (h : n < 2 ^ 63) : (n : Int64).toInt = n :=
  Int64.toInt_ofNat_of_lt h

end Word64

end SchemaCompiler
