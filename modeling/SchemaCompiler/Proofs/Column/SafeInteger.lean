import SchemaCompiler.Column.SafeInteger
import SchemaCompiler.Proofs.Binary64.Integer
import SchemaCompiler.Proofs.Binary64.Rounding
import SchemaCompiler.Proofs.Json.Word
import SchemaCompiler.Proofs.Outcome

/-! # Safe integers are told by their value

A number is checked in the way in which it is held. All ways come to the same: an integer that doubles hold
exactly is read as it is, another integer is out of range, and what is no integer is of the wrong type. -/

namespace SchemaCompiler

/-! ## The greatest safe integer -/

theorem toInt_maxSafeInteger : maxSafeInteger.toInt = 9007199254740991 := rfl

theorem Binary64.toRat_maxSafe : maxSafe.toRat = maxSafeInteger.toInt := by
  norm_num [toRat, magnitude, maxSafe, toInt_maxSafeInteger]

/-- The bound for doubles is the bound for words. -/
theorem Binary64.ofInt64?_maxSafeInteger : ofInt64? maxSafeInteger = some maxSafe := by
  have hmagnitude : ((maxSafeInteger.toInt.natAbs : Nat) : Rat) = maxSafe.magnitude := by
    norm_num [magnitude, maxSafe, toInt_maxSafeInteger]
  rw [ofInt64?, hmagnitude]
  exact ofMagnitude?_magnitude maxSafe

theorem maxSafeInteger_lt_unsignedAbs {n : Int64} :
    maxSafeInteger.toUInt64 < Word64.unsignedAbs n ↔ maxSafeInteger.toInt < n.toInt.natAbs := by
  have hbound : maxSafeInteger.toUInt64.toNat = 9007199254740991 := rfl
  rw [UInt64.lt_iff_toNat_lt, Word64.toNat_unsignedAbs, hbound, toInt_maxSafeInteger]
  omega

/-! ## The ways of reading -/

/-- What is read of a number by its value. -/
inductive ReadAs (field : String) (x : Json.Number) : Except Fault Int64 → Prop where
  | safe {n : Int64} (value : x.value = n.toInt) (bound : n.toInt.natAbs ≤ maxSafeInteger.toInt) :
      ReadAs field x (.ok n)
  | large {n : Int} (value : x.value = n) (bound : maxSafeInteger.toInt < n.natAbs) :
      ReadAs field x (.error (.unsafeInteger field x))
  | fraction (value : ¬∃ n : Int, x.value = n) : ReadAs field x (.error (.notInteger field (.number x)))

variable {field : String} {v : Json}

/-- Doubles are checked by their value. -/
theorem safeInteger_real (field : String) (x : Binary64) :
    ReadAs field (.real x) (safeInteger field (.number (.real x))) := by
  change ReadAs field (.real x) (if x.hasFraction then _ else if x.abs.isAtMost .maxSafe then _ else _)
  split
  · next hfraction => exact .fraction (Binary64.hasFraction_iff.mp hfraction)
  · next hinteger =>
      have hvalue := Binary64.toRat_eq_signedWhole (eq_false_of_ne_true hinteger)
      have hbound : x.abs.isAtMost .maxSafe ↔ x.signedWhole.natAbs ≤ maxSafeInteger.toInt := by
        rw [Binary64.isAtMost_iff, Binary64.toRat_abs, hvalue, Binary64.toRat_maxSafe, ← Int.cast_abs,
          Int.cast_le, Int.abs_eq_natAbs]
      split
      · next hsafe =>
          rw [hbound, toInt_maxSafeInteger] at hsafe
          have hfits : Word64.fitsSigned x.signedWhole := Word64.fitsSigned_iff.mpr (by omega)
          have hword := Binary64.toInt_toInt64 hfits
          refine .safe (hvalue.trans (by rw [hword])) ?_
          rw [hword, toInt_maxSafeInteger]
          exact hsafe
      · next hlarge => exact .large hvalue (Int.not_le.mp (mt hbound.mpr hlarge))

/-- So are numbers held in any other way. -/
theorem safeInteger_number (field : String) (x : Json.Number) :
    ReadAs field x (safeInteger field (.number x)) := by
  cases hword : x.asInt64? with
  | some n =>
      have hvalue := Json.Number.value_eq_of_asInt64? hword
      rw [safeInteger, hword]
      dsimp only
      split
      · next hlarge => exact .large hvalue (maxSafeInteger_lt_unsignedAbs.mp hlarge)
      · next hsafe => exact .safe hvalue (Int.not_lt.mp (mt maxSafeInteger_lt_unsignedAbs.mpr hsafe))
  | none =>
      cases x with
      | unsigned w =>
          have hgreat := Json.Number.lt_of_asInt64?_eq_none hword
          rw [safeInteger, hword]
          refine .large (n := w.toNat) (Int.cast_natCast _).symm ?_
          rw [toInt_maxSafeInteger]
          omega
      | negative => cases hword
      | real x => exact safeInteger_real field x

/-! ## What is read -/

theorem Json.Number.value_unique {x : Json.Number} {m n : Int} (hm : x.value = m) (hn : x.value = n) :
    m = n :=
  Rat.intCast_inj.mp (hm.symm.trans hn)

/-- A value denotes an integer that doubles hold exactly. -/
def Json.IsSafeInteger (v : Json) (n : Int64) : Prop :=
  ∃ x, v = .number x ∧ x.value = n.toInt ∧ n.toInt.natAbs ≤ maxSafeInteger.toInt

theorem Json.IsSafeInteger.unique {m n : Int64} (h : v.IsSafeInteger m) (h' : v.IsSafeInteger n) :
    m = n := by
  obtain ⟨x, rfl, hx, -⟩ := h
  obtain ⟨_, ⟨⟩, hx', -⟩ := h'
  exact Int64.toInt_inj.mp (Json.Number.value_unique hx hx')

theorem safeInteger_eq_ok {n : Int64} : safeInteger field v = .ok n ↔ v.IsSafeInteger n := by
  cases v with
  | null | bool | string | array | object => simp [safeInteger, Json.IsSafeInteger]
  | number x =>
      have hread := safeInteger_number field x
      generalize safeInteger field (.number x) = r at hread ⊢
      cases hread with
      | @safe m value bound =>
          have hm : (Json.number x).IsSafeInteger m := ⟨x, rfl, value, bound⟩
          rw [Except.ok.injEq]
          constructor
          · rintro rfl
            exact hm
          · exact hm.unique
      | @large m value bound =>
          refine ⟨nofun, ?_⟩
          rintro ⟨_, ⟨⟩, hn, hsafe⟩
          obtain rfl := Json.Number.value_unique value hn
          exact absurd hsafe (Int.not_le.mpr bound)
      | fraction value =>
          refine ⟨nofun, ?_⟩
          rintro ⟨_, ⟨⟩, hn, -⟩
          exact absurd ⟨n.toInt, hn⟩ value

/-- A value is refused for its type or for its size, and for nothing else. -/
theorem kind_of_safeInteger_eq_error {f : Fault} (h : safeInteger field v = .error f) :
    f.kind = .type ∨ f.kind = .range := by
  cases v with
  | number x =>
      have hread := safeInteger_number field x
      rw [h] at hread
      cases hread with
      | large => exact .inr rfl
      | fraction => exact .inl rfl
  | null | bool | string | array | object =>
      cases h
      exact .inl rfl

/-- What is read of a value depends on its own value alone: an integer that doubles hold exactly is
read as it is, another integer is out of range, and anything else is of the wrong type. -/
structure ReadsByValue (v : Json) (r : Except Fault Int64) : Prop where
  ok : ∀ n : Int, (∃ w : Int64, r = .ok w ∧ w.toInt = n) ↔
    ∃ x : Json.Number, v = .number x ∧ x.value = n ∧ n.natAbs ≤ maxSafeInteger.toInt
  type : (∃ f, r = .error f ∧ f.kind = .type) ↔
    ¬∃ (x : Json.Number) (n : Int), v = .number x ∧ x.value = n
  range : (∃ f, r = .error f ∧ f.kind = .range) ↔
    ∃ (x : Json.Number) (n : Int), v = .number x ∧ x.value = n ∧ maxSafeInteger.toInt < n.natAbs

theorem ReadAs.readsByValue {x : Json.Number} {r : Except Fault Int64} (h : ReadAs field x r) :
    ReadsByValue (.number x) r := by
  cases h with
  | @safe w value bound =>
      constructor
      · intro n
        constructor
        · rintro ⟨_, ⟨⟩, rfl⟩
          exact ⟨x, rfl, value, bound⟩
        · rintro ⟨_, ⟨⟩, hn, -⟩
          exact ⟨w, rfl, Json.Number.value_unique value hn⟩
      · refine ⟨?_, fun hnone => absurd ⟨x, w.toInt, rfl, value⟩ hnone⟩
        rintro ⟨_, ⟨⟩, -⟩
      · constructor
        · rintro ⟨_, ⟨⟩, -⟩
        · rintro ⟨_, n, ⟨⟩, hn, hlarge⟩
          obtain rfl := Json.Number.value_unique value hn
          exact absurd bound (Int.not_le.mpr hlarge)
  | @large m value bound =>
      constructor
      · intro n
        refine ⟨nofun, ?_⟩
        rintro ⟨_, ⟨⟩, hn, hsafe⟩
        obtain rfl := Json.Number.value_unique value hn
        exact absurd hsafe (Int.not_le.mpr bound)
      · refine ⟨?_, fun hnone => absurd ⟨x, m, rfl, value⟩ hnone⟩
        rintro ⟨_, ⟨⟩, ⟨⟩⟩
      · exact ⟨fun _ => ⟨x, m, rfl, value, bound⟩, fun _ => ⟨_, rfl, rfl⟩⟩
  | fraction value =>
      have hnone : ¬∃ (y : Json.Number) (n : Int), Json.number x = .number y ∧ y.value = n := by
        rintro ⟨_, n, ⟨⟩, hn⟩
        exact value ⟨n, hn⟩
      constructor
      · intro n
        refine ⟨nofun, ?_⟩
        rintro ⟨y, hy, hn, -⟩
        exact absurd ⟨y, n, hy, hn⟩ hnone
      · exact ⟨fun _ => hnone, fun _ => ⟨_, rfl, rfl⟩⟩
      · constructor
        · rintro ⟨_, ⟨⟩, ⟨⟩⟩
        · rintro ⟨y, n, hy, hn, -⟩
          exact absurd ⟨y, n, hy, hn⟩ hnone

theorem safeInteger_readsByValue (field : String) (v : Json) : ReadsByValue v (safeInteger field v) := by
  cases v with
  | number x => exact (safeInteger_number field x).readsByValue
  | null | bool | string | array | object =>
      exact ⟨by simp [safeInteger], by simp [safeInteger, Fault.kind], by simp [safeInteger, Fault.kind]⟩

end SchemaCompiler
