import SchemaCompiler.Json.Scaling
import SchemaCompiler.Proofs.Binary64.Decimal
import SchemaCompiler.Proofs.Word64

/-! # Numbers are read back

Every number is written as a literal: digits, maybe a point with further digits, maybe an exponent. Reading
splits the text into the same parts, wherever what follows cannot go on with the number, and the parts have
the value of what was written. -/

namespace SchemaCompiler

namespace Json

/-! ## Digits -/

/-- Nothing but digits, and at least one. -/
structure IsDigits (digits : List Char) : Prop where
  nonempty : digits ≠ []
  digits : ∀ c ∈ digits, c.isDigit

/-- What stands behind a number does not go on with it. -/
def EndsNumber (rest : List Char) : Prop :=
  ∀ c, rest.head? = some c → c.isDigit = false ∧ c ≠ '.' ∧ c ≠ 'e' ∧ c ≠ 'E'

/-- The first character is no digit. -/
def EndsDigits (rest : List Char) : Prop :=
  ∀ c, rest.head? = some c → c.isDigit = false

theorem EndsNumber.endsDigits {rest : List Char} (h : EndsNumber rest) : EndsDigits rest :=
  fun c hc => (h c hc).1

theorem scanDigits?_append {digits rest : List Char} (h : IsDigits digits) (hrest : EndsDigits rest) :
    scanDigits? (digits ++ rest) = some (digits, rest) := by
  have hstop : rest.takeWhile Char.isDigit = [] ∧ rest.dropWhile Char.isDigit = rest := by
    cases rest with
    | nil => exact ⟨rfl, rfl⟩
    | cons c rest =>
        have hc : c.isDigit = false := hrest c rfl
        exact ⟨by simp [hc], by simp [hc]⟩
  unfold scanDigits?
  rw [List.takeWhile_append_of_pos h.digits, List.dropWhile_append_of_pos h.digits, hstop.1, hstop.2,
    List.append_nil]
  cases digits with
  | nil => exact absurd rfl h.nonempty
  | cons => rfl

theorem isDigits_natChars (n : Nat) : IsDigits (natChars n) where
  nonempty := Nat.toDigits_ne_nil
  digits := fun _ hc => Nat.isDigit_of_mem_toDigits (by decide) (by decide) hc

/-- A number other than zero does not start with the digit zero. -/
theorem head?_natChars {n : Nat} (h : n ≠ 0) : (natChars n).head? ≠ some '0' := by
  induction n using Nat.strongRecOn with
  | _ n ih =>
      unfold natChars at ih ⊢
      rw [Nat.toDigits_eq_if (by decide)]
      by_cases hsmall : n < 10
      · rw [if_pos hsmall]
        have hdigit : ∀ m < 10, m ≠ 0 → [m.digitChar].head? ≠ some '0' := by decide
        exact hdigit n hsmall h
      · rw [if_neg hsmall, List.head?_append_of_ne_nil _ Nat.toDigits_ne_nil]
        exact ih (n / 10) (by omega) (by omega)

theorem digitsValue_natChars (n : Nat) : digitsValue (natChars n) = n :=
  Nat.ofDigitChars_ten_toDigits

theorem digitsValue_append (digits digits' : List Char) : digitsValue (digits ++ digits') =
    digitsValue digits * 10 ^ digits'.length + digitsValue digits' := by
  have happend : digitsValue (digits ++ digits') =
      Nat.ofDigitChars 10 digits' (digitsValue digits) := Nat.ofDigitChars_append 0
  rw [happend, Nat.ofDigitChars_eq_ofDigitChars_zero, Nat.mul_comm]
  rfl

theorem digitsValue_zeros (n : Nat) : digitsValue (List.replicate n '0') = 0 :=
  Nat.ofDigitChars_replicate_zero

/-- A number is its magnitude with its sign. -/
theorem signed_natAbs (n : Int) : (if decide (n < 0) then -(n.natAbs : Int) else n.natAbs) = n := by
  by_cases hnegative : n < 0
  · simp only [hnegative, decide_true, if_true]
    omega
  · simp only [hnegative, decide_false, Bool.false_eq_true, if_false]
    omega

/-! ## Literals -/

/-- A fraction behind its point, and nothing where there is no fraction. -/
def fractionChars : List Char → List Char
  | [] => []
  | digits => '.' :: digits

/-- An exponent, and nothing where there is none. -/
def optionalExponentChars : Option Int → List Char
  | none => []
  | some e => exponentChars e

namespace Literal

/-- The text of a literal behind its sign. -/
def body (l : Literal) : List Char :=
  l.whole ++ (fractionChars l.fraction ++ optionalExponentChars l.exponent)

/-- The text of a literal. -/
def chars (l : Literal) : List Char :=
  if l.negative then '-' :: l.body else l.body

/-- A literal as it may be written. -/
structure WellFormed (l : Literal) : Prop where
  whole : IsDigits l.whole
  leading : l.whole.head? = some '0' → l.whole.length = 1
  fraction : ∀ c ∈ l.fraction, c.isDigit

/-- The magnitude that a literal denotes. -/
def magnitude (l : Literal) : Rat :=
  digitsValue (l.whole ++ l.fraction) * 10 ^ (l.exponent.getD 0 - l.fraction.length)

end Literal

/-! ## Splitting literals -/

variable {rest : List Char}

theorem endsDigits_exponent (h : EndsNumber rest) (e : Option Int) :
    EndsDigits (optionalExponentChars e ++ rest) := by
  cases e with
  | none => exact h.endsDigits
  | some e =>
      rintro _ ⟨⟩
      rfl

theorem scanExponent?_append (h : EndsNumber rest) (e : Option Int) :
    scanExponent? (optionalExponentChars e ++ rest) = some (e, rest) := by
  cases e with
  | none =>
      cases rest with
      | nil => rfl
      | cons c rest =>
          obtain ⟨-, -, he, hE⟩ := h c rfl
          simp [optionalExponentChars, scanExponent?, he, hE]
  | some e =>
      have hsign : scanSign ((if e < 0 then '-' else '+') :: (natChars e.natAbs ++ rest)) =
          (decide (e < 0), natChars e.natAbs ++ rest) := by
        by_cases hnegative : e < 0
        · simp [hnegative, scanSign]
        · simp [hnegative, scanSign]
      simp only [optionalExponentChars, exponentChars, List.cons_append, scanExponent?, true_or, if_true,
        hsign, scanDigits?_append (isDigits_natChars _) h.endsDigits, bind, Option.bind,
        digitsValue_natChars, signed_natAbs]
      rfl

theorem scanFraction?_append (h : EndsNumber rest) {digits : List Char} (hdigits : ∀ c ∈ digits, c.isDigit)
    (e : Option Int) : scanFraction? (fractionChars digits ++ (optionalExponentChars e ++ rest)) =
      some (digits, optionalExponentChars e ++ rest) := by
  cases digits with
  | cons c digits => exact scanDigits?_append ⟨by simp, hdigits⟩ (endsDigits_exponent h e)
  | nil =>
      have hpoint : ∀ c, (optionalExponentChars e ++ rest).head? = some c → c ≠ '.' := by
        cases e with
        | none => exact fun c hc => (h c hc).2.1
        | some e =>
            rintro _ ⟨⟩
            decide
      rw [fractionChars, List.nil_append]
      generalize optionalExponentChars e ++ rest = s at hpoint ⊢
      cases s with
      | nil => rfl
      | cons c s =>
          unfold scanFraction?
          split
          · next heq =>
              cases heq
              exact absurd rfl (hpoint _ rfl)
          · rfl

theorem scanWhole?_append {digits : List Char} (hdigits : IsDigits digits)
    (hleading : digits.head? = some '0' → digits.length = 1) (hrest : EndsDigits rest) :
    scanWhole? (digits ++ rest) = some (digits, rest) := by
  simp only [scanWhole?, scanDigits?_append hdigits hrest, bind, Option.bind]
  rw [if_neg fun h => h.2 (hleading h.1)]
  rfl

/-- The parts of a literal behind its sign. -/
def scanBody? (negative : Bool) (s : List Char) : Option (Literal × List Char) := do
  let (whole, s) ← scanWhole? s
  let (fraction, s) ← scanFraction? s
  let (exponent, s) ← scanExponent? s
  return (⟨negative, whole, fraction, exponent⟩, s)

theorem scanLiteral?_of_head {s : List Char} (h : s.head? ≠ some '-') :
    scanLiteral? s = scanBody? false s := by
  unfold scanLiteral?
  split
  next heq =>
    split at heq
    · exact absurd rfl h
    · cases heq
      rfl

theorem scanBody?_body {l : Literal} (hl : l.WellFormed) (h : EndsNumber rest) :
    scanBody? l.negative (l.body ++ rest) = some (l, rest) := by
  have hrest : EndsDigits (fractionChars l.fraction ++ (optionalExponentChars l.exponent ++ rest)) := by
    cases l.fraction with
    | nil => exact endsDigits_exponent h l.exponent
    | cons c digits =>
        rintro _ ⟨⟩
        rfl
  rw [scanBody?, Literal.body, List.append_assoc, List.append_assoc,
    scanWhole?_append hl.whole hl.leading hrest]
  simp only [bind, Option.bind, scanFraction?_append h hl.fraction, scanExponent?_append h]
  rfl

/-- A literal is split into the parts that it was written from. -/
theorem scanLiteral?_chars {l : Literal} (hl : l.WellFormed) (h : EndsNumber rest) :
    scanLiteral? (l.chars ++ rest) = some (l, rest) := by
  have hbody := scanBody?_body hl h
  unfold Literal.chars
  cases hnegative : l.negative with
  | true =>
      rw [hnegative] at hbody
      exact hbody
  | false =>
      rw [hnegative] at hbody
      have hhead : (l.body ++ rest).head? ≠ some '-' := by
        unfold Literal.body
        cases hwhole : l.whole with
        | nil => exact absurd hwhole hl.whole.nonempty
        | cons c digits =>
            have hc : c.isDigit := hl.whole.digits c (by simp [hwhole])
            rintro ⟨⟩
            exact absurd hc (by decide)
      rw [if_neg Bool.false_ne_true, scanLiteral?_of_head hhead]
      exact hbody

/-! ## Integers -/

theorem chars_integer (negative : Bool) (n : Nat) :
    (⟨negative, natChars n, [], none⟩ : Literal).chars =
      if negative then '-' :: natChars n else natChars n := by
  simp [Literal.chars, Literal.body, fractionChars, optionalExponentChars]

theorem wellFormed_natChars (negative : Bool) (n : Nat) :
    (⟨negative, natChars n, [], none⟩ : Literal).WellFormed where
  whole := isDigits_natChars n
  leading := by
    intro hhead
    by_cases hzero : n = 0
    · rw [hzero]
      rfl
    · exact absurd hhead (head?_natChars hzero)
  fraction := by simp

theorem integer?_unsigned (n : UInt64) :
    (⟨false, natChars n.toNat, [], none⟩ : Literal).integer? = some (.unsigned n) := by
  have hword : Word64.unsigned? n.toNat = some n := Word64.unsigned?_eq_some.mpr rfl
  simp [Literal.integer?, digitsValue_natChars, hword]

theorem integer?_negative {n : Int64} (h : n < 0) :
    (⟨true, natChars n.toInt.natAbs, [], none⟩ : Literal).integer? = some (.negative n h) := by
  have hnegative : n.toInt < 0 := Int64.lt_iff_toInt_lt.mp h
  have hword : Word64.signed? (-(n.toInt.natAbs : Int)) = some n :=
    Word64.signed?_eq_some.mpr (by omega)
  simp only [Literal.integer?, digitsValue_natChars, if_true, hword, h, dite_true]

/-- A literal of an integer that a word holds is read as it, whatever the way of reading doubles. -/
theorem number?_of_integer? [RealReader] {l : Literal} {n : Number} (hfraction : l.fraction = [])
    (hexponent : l.exponent = none) (h : l.integer? = some n) : l.number? = some n := by
  rw [Literal.number?, if_pos ⟨hfraction, hexponent⟩, h, Option.some_or]

theorem number?_of_real [RealReader] {l : Literal} (h : l.fraction = [] → l.exponent ≠ none) :
    l.number? = l.real? := by
  rw [Literal.number?, if_neg fun hinteger => h hinteger.1 hinteger.2]

/-! ## Decimals -/

/-- A literal is the text of a decimal, behind a sign. -/
structure Literal.Spells (l : Literal) (d : Decimal) (text : List Char) : Prop where
  wellFormed : l.WellFormed
  body : l.body = text
  real : l.fraction = [] → l.exponent ≠ none
  magnitude : l.magnitude = d.value

section Decimals

variable {d : Decimal}

/-- Digits that do not start with zero may stand in front of a point. -/
theorem leading_natChars {n : Nat} (h : n ≠ 0) {more : List Char} :
    (natChars n ++ more).head? = some '0' → (natChars n ++ more).length = 1 := by
  intro hhead
  rw [List.head?_append_of_ne_nil _ (isDigits_natChars n).nonempty] at hhead
  exact absurd hhead (head?_natChars h)

theorem isDigits_append {digits more : List Char} (h : IsDigits digits) (hmore : ∀ c ∈ more, c.isDigit) :
    IsDigits (digits ++ more) where
  nonempty := by simp [h.nonempty]
  digits := List.forall_mem_append.mpr ⟨h.digits, hmore⟩

theorem isDigit_zeros (n : Nat) : ∀ c ∈ List.replicate n '0', c.isDigit := by
  intro c hc
  rw [List.eq_of_mem_replicate hc]
  rfl

/-- A literal has the value of its digits, shifted by the zeros behind them, its fraction and its
exponent. -/
theorem magnitude_eq {l : Literal} {zeros : Nat}
    (hdigits : digitsValue (l.whole ++ l.fraction) = d.digits * 10 ^ zeros)
    (hshift : l.exponent.getD 0 - l.fraction.length + zeros = d.exponent) :
    l.magnitude = d.value := by
  rw [Literal.magnitude, Decimal.value, hdigits, ← hshift, add_comm, zpow_add₀ (by decide), zpow_natCast]
  push_cast
  ring

/-- Zeros stand between the digits and the point. -/
theorem spells_zeros (h : d.digits ≠ 0) (hexponent : 0 ≤ d.exponent) (negative : Bool) :
    Literal.Spells ⟨negative, natChars d.digits ++ List.replicate d.exponent.toNat '0', ['0'], none⟩ d
      (natChars d.digits ++ List.replicate d.exponent.toNat '0' ++ ['.', '0']) where
  wellFormed :=
    ⟨isDigits_append (isDigits_natChars _) (isDigit_zeros _), leading_natChars h, isDigit_zeros 1⟩
  body := by simp [Literal.body, fractionChars, optionalExponentChars]
  real := by simp
  magnitude := by
    apply @magnitude_eq _ _ (d.exponent.toNat + 1)
    · rw [digitsValue_append, digitsValue_append, digitsValue_natChars, digitsValue_zeros,
        List.length_replicate, pow_succ, ← mul_assoc]
      rfl
    · simp only [Option.getD_none, List.length_singleton]
      omega

theorem isDigits_take {digits : List Char} {w : Nat} (h : IsDigits digits) (hw : 0 < w) :
    IsDigits (digits.take w) where
  nonempty := by
    simp only [ne_eq, List.take_eq_nil_iff, h.nonempty, or_false]
    omega
  digits := fun c hc => h.digits c (List.mem_of_mem_take hc)

/-- The first of some digits may stand in front of a point. -/
theorem leading_take {n w : Nat} (h : n ≠ 0) (hw : 0 < w) :
    ((natChars n).take w).head? = some '0' → ((natChars n).take w).length = 1 := by
  intro hhead
  rw [List.head?_take, if_neg (by omega)] at hhead
  exact absurd hhead (head?_natChars h)

/-- The point stands between the digits. -/
theorem spells_split (h : d.digits ≠ 0) {w : Nat} (hw : 0 < w) (hless : w < (natChars d.digits).length)
    (hexponent : d.exponent + (natChars d.digits).length = w) (negative : Bool) :
    Literal.Spells ⟨negative, (natChars d.digits).take w, (natChars d.digits).drop w, none⟩ d
      ((natChars d.digits).take w ++ '.' :: (natChars d.digits).drop w) where
  wellFormed :=
    ⟨isDigits_take (isDigits_natChars _) hw, leading_take h hw,
      fun c hc => (isDigits_natChars _).digits c (List.mem_of_mem_drop hc)⟩
  body := by
    cases hfraction : (natChars d.digits).drop w with
    | nil =>
        rw [List.drop_eq_nil_iff] at hfraction
        omega
    | cons c digits => simp [Literal.body, fractionChars, optionalExponentChars]
  real := by
    intro hnil
    have hempty : (natChars d.digits).drop w = [] := hnil
    rw [List.drop_eq_nil_iff] at hempty
    omega
  magnitude := by
    apply @magnitude_eq _ _ 0
    · rw [List.take_append_drop, digitsValue_natChars, pow_zero, mul_one]
    · simp only [Option.getD_none, List.length_drop]
      omega

/-- Zeros stand between the point and the digits. -/
theorem spells_point {zeros : Nat} (hexponent : d.exponent + (natChars d.digits).length = -zeros)
    (negative : Bool) :
    Literal.Spells ⟨negative, ['0'], List.replicate zeros '0' ++ natChars d.digits, none⟩ d
      ('0' :: '.' :: (List.replicate zeros '0' ++ natChars d.digits)) where
  wellFormed := ⟨⟨by simp, isDigit_zeros 1⟩, fun _ => rfl,
    List.forall_mem_append.mpr ⟨isDigit_zeros _, (isDigits_natChars _).digits⟩⟩
  body := by
    cases hfraction : List.replicate zeros '0' ++ natChars d.digits with
    | nil => exact absurd (List.append_eq_nil_iff.mp hfraction).2 (isDigits_natChars _).nonempty
    | cons c digits => simp [Literal.body, fractionChars, optionalExponentChars]
  real := by
    intro hnil
    exact absurd (List.append_eq_nil_iff.mp hnil).2 (isDigits_natChars _).nonempty
  magnitude := by
    have hzero : digitsValue ['0'] = 0 := rfl
    apply @magnitude_eq _ _ 0
    · rw [digitsValue_append, digitsValue_append, digitsValue_natChars, digitsValue_zeros, hzero]
      simp
    · simp only [Option.getD_none, List.length_append, List.length_replicate]
      omega

theorem exists_spells_plain (h : d.digits ≠ 0) (negative : Bool) :
    ∃ l : Literal, l.negative = negative ∧ l.Spells d (plainChars d) := by
  unfold plainChars
  simp only
  by_cases hexponent : 0 ≤ d.exponent
  · rw [if_pos hexponent]
    exact ⟨_, rfl, spells_zeros h hexponent negative⟩
  · rw [if_neg hexponent]
    by_cases hsplit : 0 < d.exponent + (natChars d.digits).length
    · rw [if_pos hsplit]
      exact ⟨_, rfl, spells_split h (by omega) (by omega) (by omega) negative⟩
    · rw [if_neg hsplit]
      exact ⟨_, rfl, spells_point (by omega) negative⟩

theorem scientificChars_eq (d : Decimal) : scientificChars d =
    (natChars d.digits).take 1 ++ fractionChars (natChars d.digits).tail ++
      exponentChars (d.exponent + (natChars d.digits).length - 1) := by
  unfold scientificChars
  simp only
  cases (natChars d.digits).tail <;> rfl

/-- One digit stands in front of the point, and the exponent makes up for it. -/
theorem exists_spells_scientific (h : d.digits ≠ 0) (negative : Bool) :
    ∃ l : Literal, l.negative = negative ∧ l.Spells d (scientificChars d) := by
  have hlength : 0 < (natChars d.digits).length :=
    List.length_pos_iff.mpr (isDigits_natChars d.digits).nonempty
  refine ⟨⟨negative, (natChars d.digits).take 1, (natChars d.digits).tail,
    some (d.exponent + (natChars d.digits).length - 1)⟩, rfl, ?_⟩
  refine ⟨⟨isDigits_take (isDigits_natChars _) (by decide), leading_take h (by decide), fun c hc =>
    (isDigits_natChars _).digits c (List.mem_of_mem_tail hc)⟩, ?_, by simp, ?_⟩
  · rw [scientificChars_eq, Literal.body, List.append_assoc]
    rfl
  · apply @magnitude_eq _ _ 0
    · rw [← List.drop_one, List.take_append_drop, digitsValue_natChars, pow_zero, mul_one]
    · simp only [Option.getD_some, List.length_tail]
      omega

theorem exists_spells_decimal (h : d.digits ≠ 0) (negative : Bool) :
    ∃ l : Literal, l.negative = negative ∧ l.Spells d (decimalChars d) := by
  unfold decimalChars
  simp only
  split
  · exact exists_spells_plain h negative
  · exact exists_spells_scientific h negative

end Decimals

/-! ## Doubles -/

/-- A double is written as a literal with a fraction or an exponent, which has its sign and its magnitude. -/
theorem exists_literal_real (x : Binary64) : ∃ l : Literal, l.WellFormed ∧ l.chars = realChars x ∧
    (l.fraction = [] → l.exponent ≠ none) ∧
      Binary64.ofValue? l.negative l.magnitude = some x := by
  by_cases hzero : x.mantissa = 0
  · refine ⟨⟨x.negative, ['0'], ['0'], none⟩, ⟨⟨by simp, isDigit_zeros 1⟩, fun _ => rfl, isDigit_zeros 1⟩,
      ?_, by simp, ?_⟩
    · rw [realChars, if_pos hzero]
      rfl
    · have hdigits : digitsValue ['0', '0'] = 0 := rfl
      simp only [Literal.magnitude, List.cons_append, List.nil_append, hdigits, Nat.cast_zero, zero_mul,
        Binary64.ofValue?_zero]
      rw [← Binary64.eq_zero_of_mantissa hzero]
  · obtain ⟨l, hnegative, hl⟩ :=
      exists_spells_decimal (Binary64.shortest_digits_ne_zero hzero) x.negative
    refine ⟨l, hl.wellFormed, ?_, hl.real, ?_⟩
    · rw [realChars, if_neg hzero, Literal.chars, hnegative, hl.body]
    · rw [hnegative, hl.magnitude, ← Decimal.toBinary64?_eq_ofValue?,
        Binary64.toBinary64?_shortest hzero]

/-- A double that is written so that it reads back equal. Which doubles are depends on the reader. -/
def IsRestored [RealReader] (x : Binary64) : Prop :=
  scanNumber? (realChars x) = some (.real x, [])

instance [RealReader] (x : Binary64) : Decidable (IsRestored x) :=
  inferInstanceAs (Decidable (_ = _))

/-- Reading a literal as the double nearest to it. -/
@[reducible] def RealReader.nearest : RealReader :=
  ⟨fun l => Binary64.ofDecimal? l.negative (digitsValue (l.whole ++ l.fraction))
    (l.exponent.getD 0 - l.fraction.length)⟩

/-! ## Numbers -/

/-- A condition on the number, if it is held as a double. -/
def Number.RealIs (P : Binary64 → Prop) : Number → Prop
  | .real x => P x
  | .unsigned _ | .negative .. => True

theorem realIs_ofInt64 {P : Binary64 → Prop} (n : Int64) : (Number.ofInt64 n).RealIs P := by
  unfold Number.ofInt64
  split <;> exact trivial

theorem exists_literal_number (n : Number) : ∃ l : Literal, l.WellFormed ∧ l.chars = n.chars := by
  cases n with
  | unsigned n => exact ⟨_, wellFormed_natChars false n.toNat, chars_integer ..⟩
  | negative n => exact ⟨_, wellFormed_natChars true n.toInt.natAbs, chars_integer ..⟩
  | real x =>
      obtain ⟨l, hl, hchars, -⟩ := exists_literal_real x
      exact ⟨l, hl, hchars⟩

/-- Nothing stands behind a text that ends with a number. -/
theorem endsNumber_nil : EndsNumber [] := by
  rintro _ ⟨⟩

theorem scanNumber?_literal [RealReader] {l : Literal} (hl : l.WellFormed) (hrest : EndsNumber rest) :
    scanNumber? (l.chars ++ rest) = l.number?.map fun n => (n, rest) := by
  simp only [scanNumber?, scanLiteral?_chars hl hrest, bind, Option.bind]
  cases l.number? <;> rfl

/-- A number is read back, in front of anything that does not go on with it. -/
theorem scanNumber?_chars [RealReader] {n : Number} (hn : n.RealIs IsRestored) (hrest : EndsNumber rest) :
    scanNumber? (n.chars ++ rest) = some (n, rest) := by
  suffices h : ∃ l : Literal, l.WellFormed ∧ l.chars = n.chars ∧ l.number? = some n by
    obtain ⟨l, hl, hchars, hnumber⟩ := h
    rw [← hchars, scanNumber?_literal hl hrest, hnumber, Option.map_some]
  cases n with
  | unsigned n =>
      exact ⟨_, wellFormed_natChars false n.toNat, chars_integer ..,
        number?_of_integer? rfl rfl (integer?_unsigned n)⟩
  | negative n h =>
      exact ⟨_, wellFormed_natChars true n.toInt.natAbs, chars_integer ..,
        number?_of_integer? rfl rfl (integer?_negative h)⟩
  | real x =>
      obtain ⟨l, hl, hchars, -⟩ := exists_literal_real x
      have hread : scanNumber? (l.chars ++ []) = some (.real x, []) := by
        rw [List.append_nil, hchars]
        exact hn
      rw [scanNumber?_literal hl endsNumber_nil, Option.map_eq_some_iff] at hread
      obtain ⟨_, hnumber, ⟨⟩⟩ := hread
      exact ⟨l, hl, hchars, hnumber⟩

/-- A reader that gives the nearest double restores every double. -/
theorem isRestored_nearest (x : Binary64) : @IsRestored .nearest x := by
  obtain ⟨l, hl, hchars, hreal, hvalue⟩ := exists_literal_real x
  have hdouble : RealReader.nearest.real? l = some x := by
    rw [← hvalue]
    exact Binary64.ofDecimal?_eq_ofValue? ..
  have hnumber : @Literal.number? .nearest l = some (.real x) :=
    (@number?_of_real .nearest l hreal).trans (congrArg (Option.map Number.real) hdouble)
  have hread : @scanNumber? .nearest (l.chars ++ []) = some (.real x, []) := by
    rw [@scanNumber?_literal _ .nearest _ hl endsNumber_nil, hnumber, Option.map_some]
  rwa [List.append_nil, hchars] at hread

-- The reader that scales does not restore 9.059588872765514.
example : (Binary64.ofDecimal? false 9059588872765514 (-15)).map (decide <| IsRestored ·) = some false := by
  decide +kernel

end Json

end SchemaCompiler
