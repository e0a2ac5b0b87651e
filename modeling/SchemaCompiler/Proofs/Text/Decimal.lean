import Mathlib.Data.Int.Basic

/-! # Integers in decimal notation -/

namespace SchemaCompiler

namespace Text

theorem toList_toString_int (n : Int) :
    (toString n).toList = (if n < 0 then ['-'] else []) ++ Nat.toDigits 10 n.natAbs := by
  rw [Int.toString_eq_repr, Int.repr_eq_if]
  by_cases h : 0 ≤ n
  · have habs : n.toNat = n.natAbs := by omega
    rw [if_pos h, if_neg (Int.not_lt.mpr h), habs, Nat.toList_repr, List.nil_append]
  · have habs : (-n).toNat = n.natAbs := by omega
    rw [if_neg h, if_pos (Int.not_le.mp h), habs, String.toList_append, Nat.toList_repr]
    rfl

theorem mem_toString_int {n : Int} {c : Char} (h : c ∈ (toString n).toList) :
    c = '-' ∨ c.isDigit := by
  rw [toList_toString_int, List.mem_append] at h
  rcases h with h | h
  · split at h
    · exact .inl (List.mem_singleton.mp h)
    · simp at h
  · exact .inr (Nat.isDigit_of_mem_toDigits (by decide) (by decide) h)

end Text

end SchemaCompiler
