import SchemaCompiler.Proofs.Column.Limits
import Mathlib

/-! # A column is declared again

A column in order holds all that a declaration needs to become this column: its limits may be declared, its
default is a literal that its rule reads, and its codes are read one by one. -/

namespace SchemaCompiler

/-! ## The declaration of a column -/

/-- A default value as a declaration writes it. -/
def DefaultValue.toJson : DefaultValue → Json
  | .integer n => .int n
  | .empty => .string ""
  | .hex digits => .string ("X'" ++ digits ++ "'")

/-- A code as a declaration writes it. -/
def CodeValue.redeclared (v : CodeValue) : CodeDeclaration :=
  ⟨.int (v.code : Nat), v.name⟩

/-- The declaration that a column without a reference stands for. -/
def Column.redeclared (c : Column) : ColumnDeclaration :=
  let plain : ColumnDeclaration :=
    { name := c.name
      kind := c.type.kind.token
      nullable := c.nullable
      defaultValue := c.default.map (·.toJson) }
  match c.type with
  | .integer size unsigned autoIncrement bounds =>
    { plain with
      size := some size.token
      unsigned := unsigned
      autoIncrement := autoIncrement
      minValue := some (.int bounds.min)
      maxValue := some (.int bounds.max) }
  | .serial size _ => { plain with size := some size.token, unsigned := true, autoIncrement := true }
  | .timestamp unsigned _ => { plain with unsigned := unsigned }
  | .string minLength maxLength =>
    { plain with minLength := minLength.map .int, maxLength := some (.int maxLength) }
  | .binary minSize maxSize =>
    { plain with
      minSize := if minSize = 0 then none else some (.int minSize)
      maxSize := some (.int maxSize) }
  | .boolean => plain
  | .code domain => { plain with values := some (domain.values.map (·.redeclared)) }

/-! ## Byte literals -/

namespace ByteLiteral

theorem isEmpty_quoted (digits : String) : isEmpty ("X'" ++ digits ++ "'") = false := by
  have hne : ∀ s : String, s.toList.head? ≠ some 'X' → "X'" ++ digits ++ "'" ≠ s := by
    rintro _ hs rfl
    exact hs (by rw [toList_quoted]; rfl)
  simp [isEmpty, hne "" (by decide), hne "''" (by decide)]

/-- Digits in upper case are digits, and stay as they are. -/
theorem IsUpperDigit.isHexDigit {c : Char} (h : IsUpperDigit c) : isHexDigit c ∧ c.toUpper = c := by
  have hascii : c.toNat < 128 := by
    rcases h with h | h
    · exact Identifier.toNat_lt_of_le h.2 (by decide)
    · exact Identifier.toNat_lt_of_le h.2 (by decide)
  have hall : ∀ n < 128, IsUpperDigit (Char.ofNat n) →
      ByteLiteral.isHexDigit (Char.ofNat n) ∧ (Char.ofNat n).toUpper = Char.ofNat n := by
    unfold IsUpperDigit
    decide
  have hc := hall c.toNat hascii
  rw [Char.ofNat_toNat] at hc
  exact hc h

/-- The digits of whole bytes are read from between their quotes. -/
theorem digits?_quoted {digits : String} (h : IsBytes digits) :
    digits? ("X'" ++ digits ++ "'") = some digits := by
  have hbody : body? ("X'" ++ digits ++ "'").toList = some digits.toList := by
    rw [toList_quoted, body?, beforeQuote?_eq_some.mpr rfl]
  have heven : digits.toList.length % 2 = 0 := h.even
  have hall : digits.toList.all isHexDigit :=
    List.all_eq_true.mpr fun c hc => (h.upper c hc).isHexDigit.1
  have hupper : digits.toList.map Char.toUpper = digits.toList :=
    (List.map_congr_left fun c hc => (h.upper c hc).isHexDigit.2).trans (List.map_id _)
  rw [digits?, hbody, Option.bind_eq_bind, Option.bind_some, if_pos ⟨heven, hall⟩, hupper,
    String.ofList_toList]
  rfl

end ByteLiteral

namespace ColumnDeclaration

/-! ## Defaults -/

variable {default : Option DefaultValue} {bounds : Bounds}

theorem integerDefault_toJson (h : ∀ v, default = some v →
    ∃ n, v = .integer n ∧ IsSafeInteger n ∧ bounds.contains n) :
    integerDefault bounds (default.map (·.toJson)) = .ok default := by
  cases default with
  | none => rfl
  | some v =>
      obtain ⟨n, rfl, hsafe, hn⟩ := h v rfl
      exact integerDefault_eq_ok.mpr (.inr ⟨.int n, n, rfl, hsafe.int, hn, rfl⟩)

theorem timestampDefault_toJson {unsigned : Bool}
    (h : ∀ v, default = some v → (ColumnType.timestamp unsigned bounds).Admits v) :
    timestampDefault unsigned (default.map (·.toJson)) = .ok default := by
  cases default with
  | none => rfl
  | some v =>
      cases h v rfl
      rfl

theorem stringDefault_toJson {minLength : Option Int64} {maxLength : Int64}
    (h : ∀ v, default = some v → (ColumnType.string minLength maxLength).Admits v) :
    stringDefault minLength (default.map (·.toJson)) = .ok default := by
  cases default with
  | none => rfl
  | some v =>
      cases h v rfl
      rfl

theorem binaryDefault_toJson {minSize maxSize : Int64} (hpositive : 1 ≤ maxSize)
    (h : ∀ v, default = some v → (ColumnType.binary minSize maxSize).Admits v) :
    binaryDefault maxSize (default.map (·.toJson)) = .ok default := by
  cases default with
  | none => rfl
  | some v =>
      cases h v rfl with
      | noBytes =>
          have hfits : ¬maxSize.toInt < 0 := by
            have hleast : 1 ≤ maxSize.toInt := Int64.le_iff_toInt_le.mp hpositive
            omega
          simp [binaryDefault, DefaultValue.toJson, byteDigits?, ByteLiteral.isEmpty, ByteLiteral.size,
            hfits]
      | @bytes _ _ digits hne hbytes hfits =>
          have hdigits : byteDigits? (DefaultValue.hex digits).toJson = some digits := by
            simp only [DefaultValue.toJson, byteDigits?, ByteLiteral.isEmpty_quoted, Bool.false_eq_true,
              if_false, ByteLiteral.digits?_quoted hbytes]
          simp [binaryDefault, hdigits, hne, Int.not_lt.mpr hfits]

theorem denotes_redeclared (v : CodeValue) : v.redeclared.Denotes v.pair :=
  ⟨(isSafeInteger_code v.code).int, rfl⟩

theorem codeDefault_toJson {domain : CodeDomain}
    (h : ∀ v, default = some v → (ColumnType.code domain).Admits v) :
    codeDefault domain (default.map (·.toJson)) = .ok default := by
  cases default with
  | none => rfl
  | some v =>
      cases h v rfl with
      | @code _ v hv =>
          have hcontains : domain.contains (v.code : Nat) := List.any_eq_true.mpr ⟨v, hv, by simp⟩
          exact codeDefault_eq_ok.mpr (.inr ⟨_, _, rfl, (denotes_redeclared v).code, hcontains, rfl⟩)

/-! ## Enumerations -/

/-- The values of an enumeration are read as they are. -/
theorem codeValues_redeclared {values : List CodeValue} (h : CodeDomain.IsValid ⟨values⟩) :
    codeValues [] (values.map (·.redeclared)) = .ok values := by
  refine (codeValues_eq_ok isValid_nil).mpr ⟨values, rfl, ?_, h⟩
  rw [List.forall₂_map_left_iff]
  exact List.forall₂_same.mpr fun v _ => denotes_redeclared v

end ColumnDeclaration

/-! ## Rules -/

namespace Column

open ColumnDeclaration

variable {c : Column}

theorem redeclared_kind : c.redeclared.kind = c.type.kind.token := by
  unfold redeclared
  cases c.type <;> rfl

theorem redeclared_defaultValue : c.redeclared.defaultValue = c.default.map (·.toJson) := by
  unfold redeclared
  cases c.type <;> rfl

/-- A default is written as a scalar, and never as null. -/
theorem redeclared_scalarDefault : c.redeclared.scalarDefault = .ok (c.default.map (·.toJson)) := by
  rw [scalarDefault_eq_ok, declaredDefault?, redeclared_defaultValue]
  cases c.default with
  | none => simp
  | some v => cases v <;> simp [DefaultValue.toJson, Json.int]

variable {name : String} {nullable : Bool} {default : Option DefaultValue}

theorem integer_redeclared {size : IntegerSize} {unsigned autoIncrement : Bool} {bounds : Bounds}
    (h : InOrder ⟨name, nullable, default, .integer size unsigned autoIncrement bounds, none⟩) :
    (redeclared ⟨name, nullable, default, .integer size unsigned autoIncrement bounds, none⟩).integer =
      .ok ⟨name, nullable, default, .integer size unsigned autoIncrement bounds, none⟩ := by
  cases h.type with
  | integer least ordered greatest =>
      have habsolute : ∀ n, bounds.contains n → (size.bounds unsigned).contains n := by
        intro n hn
        obtain ⟨hmin, hmax⟩ := Bounds.contains_iff.mp hn
        exact Bounds.contains_iff.mpr ⟨Int64.le_trans least hmin, Int64.le_trans hmax greatest⟩
      have hmin := habsolute bounds.min (Bounds.contains_iff.mpr ⟨Int64.le_refl _, ordered⟩)
      have hmax := habsolute bounds.max (Bounds.contains_iff.mpr ⟨ordered, Int64.le_refl _⟩)
      refine integer_eq_ok.mpr ⟨size, bounds.min, bounds.max, _, default, requiredSize_eq_ok.mpr rfl,
        limit_of_contains (isSafeInteger_of_contains hmin) hmin,
        limit_of_contains (isSafeInteger_of_contains hmax) hmax, ordered, redeclared_scalarDefault, ?_,
        integerDefault_toJson ?_, rfl⟩
      · -- a numbered column admits no default
        rintro ⟨hnumbered, hdeclared⟩
        obtain ⟨v, hv⟩ := Option.isSome_iff_exists.mp (by simpa using hdeclared)
        cases h.default v hv
        cases hnumbered
      · intro v hv
        cases h.default v hv with
        | @integer _ _ _ n hleast hgreatest =>
            have hn : bounds.contains n := Bounds.contains_iff.mpr ⟨hleast, hgreatest⟩
            exact ⟨n, rfl, isSafeInteger_of_contains (habsolute n hn), hn⟩

theorem string_redeclared {minLength : Option Int64} {maxLength : Int64}
    (h : InOrder ⟨name, nullable, default, .string minLength maxLength, none⟩)
    (hvalid : (ColumnType.string minLength maxLength).IsValid) :
    (redeclared ⟨name, nullable, default, .string minLength maxLength, none⟩).string =
      .ok ⟨name, nullable, default, .string minLength maxLength, none⟩ := by
  cases h.type with
  | string positive within =>
      exact string_eq_ok.mpr ⟨maxLength, minLength, _, default, requiredLimit_of_positive hvalid.2 positive,
        optionalLimit_of_contains fun n hn => ⟨hvalid.1 n hn, Bounds.contains_iff.mpr (within n hn)⟩,
        redeclared_scalarDefault, stringDefault_toJson h.default, rfl⟩

theorem binary_redeclared {minSize maxSize : Int64}
    (h : InOrder ⟨name, nullable, default, .binary minSize maxSize, none⟩)
    (hvalid : (ColumnType.binary minSize maxSize).IsValid) :
    (redeclared ⟨name, nullable, default, .binary minSize maxSize, none⟩).binary =
      .ok ⟨name, nullable, default, .binary minSize maxSize, none⟩ := by
  cases h.type with
  | binary positive within =>
      have hminSize : limit "minSize" ⟨1, maxSize⟩ 0
          (if minSize = 0 then none else some (.int minSize)) = .ok minSize := by
        by_cases hzero : minSize = 0
        · rw [if_pos hzero, hzero]
          rfl
        · rw [if_neg hzero]
          exact limit_of_contains hvalid.1 (Bounds.contains_iff.mpr (within.resolve_left hzero))
      exact binary_eq_ok.mpr ⟨maxSize, minSize, _, default, requiredLimit_of_positive hvalid.2 positive,
        hminSize, redeclared_scalarDefault, binaryDefault_toJson positive h.default, rfl⟩

/-- The declaration that a column in order stands for is accepted as this column. -/
theorem validate_redeclared (h : c.InOrder) (hvalid : c.IsValid) (hplain : c.foreignKey = none) :
    c.redeclared.validate = .ok c := by
  have hkind : ColumnKind.ofToken? c.redeclared.kind = some c.type.kind := by
    rw [redeclared_kind, ColumnKind.ofToken?_eq_some]
  refine validate_eq_ok.mpr ⟨c.type.kind, hkind, ?_⟩
  obtain ⟨name, nullable, default, type, foreignKey⟩ := c
  obtain rfl : foreignKey = none := hplain
  cases h.type with
  | integer => exact integer_redeclared h
  | @serial size =>
      obtain ⟨rfl, rfl, -⟩ : nullable = false ∧ default = none ∧ _ := h.serial rfl
      exact serial_eq_ok.mpr
        ⟨size, requiredSize_eq_ok.mpr rfl, rfl, redeclared_scalarDefault, rfl, rfl, rfl⟩
  | timestamp =>
      exact timestamp_eq_ok.mpr
        ⟨_, default, redeclared_scalarDefault, timestampDefault_toJson h.default, rfl⟩
  | string => exact string_redeclared h hvalid.type
  | binary => exact binary_redeclared h hvalid.type
  | boolean =>
      refine boolean_eq_ok.mpr ⟨_, default, redeclared_scalarDefault, integerDefault_toJson ?_, rfl⟩
      intro v hv
      cases h.default v hv with
      | boolean hbit =>
          refine ⟨_, rfl, hvalid.default _ hv, Bounds.contains_iff.mpr ?_⟩
          rcases hbit with rfl | rfl <;> decide
  | @code domain nonempty =>
      refine code_eq_ok.mpr ⟨domain.values, _, default, ?_, ?_, redeclared_scalarDefault,
        codeDefault_toJson h.default, rfl⟩
      · simpa [redeclared] using nonempty
      · exact codeValues_redeclared hvalid.type

end Column

end SchemaCompiler
