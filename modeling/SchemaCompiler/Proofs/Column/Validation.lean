import SchemaCompiler.Column.Validation
import SchemaCompiler.Proofs.Column.SafeInteger

/-! # What each rule of a column accepts -/

namespace SchemaCompiler

/-! ## Safe integers -/

/-- A value that is neither a scalar nor null. -/
def Json.IsNested : Json → Prop
  | .array _ | .object _ => True
  | _ => False

theorem Json.IsSafeInteger.not_isNested {v : Json} {n : Int64} (h : v.IsSafeInteger n) :
    ¬v.IsNested := by
  obtain ⟨x, rfl, -⟩ := h
  exact id

theorem Bounds.contains_iff {b : Bounds} {n : Int64} : b.contains n ↔ b.min ≤ n ∧ n ≤ b.max := by
  simp [contains]

theorem within_eq_ok {bounds : Bounds} {field : String} {n m : Int64} :
    within bounds field n = .ok m ↔ bounds.contains n ∧ n = m := by
  by_cases h : bounds.contains n <;> simp [within, h]

theorem safeIntegerWithin_eq_ok {bounds : Bounds} {field : String} {v : Json} {n : Int64} :
    safeIntegerWithin bounds field v = .ok n ↔ v.IsSafeInteger n ∧ bounds.contains n := by
  simp only [safeIntegerWithin, bind_eq_ok, safeInteger_eq_ok, within_eq_ok]
  constructor
  · rintro ⟨m, hm, hcontains, rfl⟩
    exact ⟨hm, hcontains⟩
  · rintro ⟨hn, hcontains⟩
    exact ⟨n, hn, hcontains, rfl⟩

theorem IntegerSize.ofToken?_eq_some {token : String} {size : IntegerSize} :
    ofToken? token = some size ↔ size.token = token := by
  constructor
  · intro h
    simpa using List.find?_some h
  · rintro rfl
    cases size <;> decide

namespace ColumnDeclaration

variable {c : ColumnDeclaration} {column : Column}

theorem requiredSize_eq_ok {size : IntegerSize} :
    c.requiredSize = .ok size ↔ c.size = some size.token := by
  unfold requiredSize
  cases c.size with
  | none => simp
  | some token =>
      have htoken : some token = some size.token ↔ IntegerSize.ofToken? token = some size := by
        rw [IntegerSize.ofToken?_eq_some, Option.some.injEq, eq_comm]
      rw [htoken]
      cases h : IntegerSize.ofToken? token <;> simp [h]

/-- A limit as it is declared, or the value that stands for a missing one. -/
inductive LimitIs (bounds : Bounds) (absent : Int64) : Option Json → Int64 → Prop where
  | absent : LimitIs bounds absent none absent
  | declared {v n} (hn : v.IsSafeInteger n) (least : bounds.min ≤ n) (greatest : n ≤ bounds.max) :
      LimitIs bounds absent (some v) n

theorem limit_eq_ok {field : String} {bounds : Bounds} {absent n : Int64} {x : Option Json} :
    limit field bounds absent x = .ok n ↔ LimitIs bounds absent x n := by
  cases x with
  | none =>
      rw [limit, Except.ok.injEq]
      exact ⟨fun h => h ▸ .absent, fun | .absent => rfl⟩
  | some v =>
      rw [limit, safeIntegerWithin_eq_ok, Bounds.contains_iff]
      exact ⟨fun ⟨hn, hmin, hmax⟩ => .declared hn hmin hmax,
        fun | .declared hn hmin hmax => ⟨hn, hmin, hmax⟩⟩

theorem LimitIs.eq_or_within {bounds : Bounds} {absent n : Int64} {x : Option Json}
    (h : LimitIs bounds absent x n) : n = absent ∨ bounds.min ≤ n ∧ n ≤ bounds.max := by
  cases h with
  | absent => exact .inl rfl
  | declared _ least greatest => exact .inr ⟨least, greatest⟩

/-! ## Rules -/

theorem integer_eq_ok : c.integer = .ok column ↔ ∃ size min max declared default,
    c.requiredSize = .ok size ∧
    limit "minValue" (size.bounds c.unsigned)
      (if c.autoIncrement then 1 else (size.bounds c.unsigned).min) c.minValue = .ok min ∧
    limit "maxValue" (size.bounds c.unsigned) (size.bounds c.unsigned).max c.maxValue = .ok max ∧
    min ≤ max ∧ c.scalarDefault = .ok declared ∧ ¬(c.autoIncrement ∧ declared.isSome) ∧
    integerDefault ⟨min, max⟩ declared = .ok default ∧
    ⟨c.name, c.nullable, default, .integer size c.unsigned c.autoIncrement ⟨min, max⟩, none⟩ =
      column := by
  simp only [integer, bind_eq_ok, guard_eq_ok, pure_eq_ok, exists_and_left, Int64.not_lt]

theorem serial_eq_ok : c.serial = .ok column ↔ ∃ size, c.requiredSize = .ok size ∧
    c.nullable = false ∧ c.scalarDefault = .ok none ∧ c.minValue = none ∧ c.maxValue = none ∧
    ⟨c.name, false, none, .serial size ⟨1, (size.bounds true).max⟩, none⟩ = column := by
  simp only [serial, bind_eq_ok, guard_eq_ok, pure_eq_ok]
  simp [and_assoc]

theorem timestamp_eq_ok : c.timestamp = .ok column ↔ ∃ declared default,
    c.scalarDefault = .ok declared ∧ timestampDefault c.unsigned declared = .ok default ∧
    ⟨c.name, c.nullable, default, .timestamp c.unsigned (IntegerSize.big.bounds c.unsigned), none⟩ =
      column := by
  simp only [timestamp, bind_eq_ok, pure_eq_ok, exists_and_left]

theorem string_eq_ok : c.string = .ok column ↔ ∃ maxLength minLength declared default,
    requiredLimit "maxLength" c.maxLength = .ok maxLength ∧
    optionalLimit "minLength" ⟨1, maxLength⟩ c.minLength = .ok minLength ∧
    c.scalarDefault = .ok declared ∧ stringDefault minLength declared = .ok default ∧
    ⟨c.name, c.nullable, default, .string minLength maxLength, none⟩ = column := by
  simp only [string, bind_eq_ok, pure_eq_ok, exists_and_left]

theorem binary_eq_ok : c.binary = .ok column ↔ ∃ maxSize minSize declared default,
    requiredLimit "maxSize" c.maxSize = .ok maxSize ∧
    limit "minSize" ⟨1, maxSize⟩ 0 c.minSize = .ok minSize ∧
    c.scalarDefault = .ok declared ∧ binaryDefault maxSize declared = .ok default ∧
    ⟨c.name, c.nullable, default, .binary minSize maxSize, none⟩ = column := by
  simp only [binary, bind_eq_ok, pure_eq_ok, exists_and_left]

theorem boolean_eq_ok : c.boolean = .ok column ↔ ∃ declared default,
    c.scalarDefault = .ok declared ∧ integerDefault ⟨0, 1⟩ declared = .ok default ∧
    ⟨c.name, c.nullable, default, .boolean, none⟩ = column := by
  simp only [boolean, bind_eq_ok, pure_eq_ok, exists_and_left]

theorem code_eq_ok : c.code = .ok column ↔ ∃ values declared default,
    c.values.getD [] ≠ [] ∧ codeValues [] (c.values.getD []) = .ok values ∧
    c.scalarDefault = .ok declared ∧ codeDefault ⟨values⟩ declared = .ok default ∧
    ⟨c.name, c.nullable, default, .code ⟨values⟩, none⟩ = column := by
  simp only [code, bind_eq_ok, guard_eq_ok, pure_eq_ok, exists_and_left, List.isEmpty_iff, ne_eq]

/-! ## Defaults -/

/-- The declared default is absent, null or a safe integer within bounds. -/
def DefaultWithin (c : ColumnDeclaration) (bounds : Bounds) : Prop :=
  ∀ v, c.declaredDefault? = some v → ∃ n, v.IsSafeInteger n ∧ bounds.contains n

theorem scalarDefault_eq_ok {declared : Option Json} : c.scalarDefault = .ok declared ↔
    c.declaredDefault? = declared ∧ (∀ members, declared ≠ some (.object members)) ∧
      ∀ items, declared ≠ some (.array items) := by
  unfold scalarDefault
  split
  · next members h =>
      simp only [reduceCtorEq, false_iff, not_and]
      rintro hd hobject -
      exact hobject members (hd.symm.trans h)
  · next items h =>
      simp only [reduceCtorEq, false_iff, not_and]
      rintro hd - harray
      exact harray items (hd.symm.trans h)
  · next hobject harray =>
      simp only [Except.ok.injEq]
      refine ⟨?_, And.left⟩
      rintro rfl
      exact ⟨rfl, hobject, harray⟩

/-- A column declares a default, of whatever shape. -/
def Declares (c : ColumnDeclaration) (v : Json) : Prop :=
  c.defaultValue = some v ∧ v ≠ .null

theorem declaredDefault?_eq_none :
    c.declaredDefault? = none ↔ c.defaultValue = none ∨ c.defaultValue = some .null := by
  unfold declaredDefault?
  split <;> simp_all

theorem declaredDefault?_eq_some {v : Json} : c.declaredDefault? = some v ↔ c.Declares v := by
  unfold declaredDefault? Declares
  split <;> simp_all
  rintro rfl
  assumption

theorem scalarDefault_eq_ok_some {v : Json} :
    c.scalarDefault = .ok (some v) ↔ c.Declares v ∧ ¬v.IsNested := by
  rw [scalarDefault_eq_ok, declaredDefault?_eq_some]
  cases v <;> simp [Json.IsNested]

theorem scalarDefault_eq_ok_none :
    c.scalarDefault = .ok none ↔ c.defaultValue = none ∨ c.defaultValue = some .null := by
  rw [scalarDefault_eq_ok, declaredDefault?_eq_none]
  simp

theorem integerDefault_eq_ok {bounds : Bounds} {declared : Option Json}
    {default : Option DefaultValue} : integerDefault bounds declared = .ok default ↔
      declared = none ∧ none = default ∨
        ∃ v n, declared = some v ∧ v.IsSafeInteger n ∧ bounds.contains n ∧
          some (.integer n) = default := by
  cases declared with
  | none => simp [integerDefault]
  | some v =>
      simp only [integerDefault, bind_eq_ok, safeIntegerWithin_eq_ok, pure_eq_ok]
      simp [and_assoc]

theorem codeDefault_eq_ok {domain : CodeDomain} {declared : Option Json}
    {default : Option DefaultValue} : codeDefault domain declared = .ok default ↔
      declared = none ∧ none = default ∨
        ∃ v n, declared = some v ∧ v.IsSafeInteger n ∧ domain.contains n ∧
          some (.integer n) = default := by
  cases declared with
  | none => simp [codeDefault]
  | some v =>
      simp only [codeDefault, bind_eq_ok, safeInteger_eq_ok]
      constructor
      · rintro ⟨n, hn, h⟩
        split at h
        · next hcontains => exact .inr ⟨v, n, rfl, hn, hcontains, pure_eq_ok.mp h⟩
        · simp at h
      · rintro (⟨h, -⟩ | ⟨_, n, ⟨⟩, hn, hcontains, rfl⟩)
        · cases h
        · exact ⟨n, hn, by simp [hcontains]⟩

/-- The compiled default: none, or one of the safe integers that are allowed. -/
inductive DefaultAmong (c : ColumnDeclaration) (allowed : Int64 → Prop) : Option DefaultValue → Prop where
  | absent (h : c.defaultValue = none ∨ c.defaultValue = some .null) : DefaultAmong c allowed none
  | declared {v n} (h : c.Declares v) (hn : v.IsSafeInteger n) (hallowed : allowed n) :
      DefaultAmong c allowed (some (.integer n))

theorem defaultAmong_iff {allowed : Int64 → Prop} {default : Option DefaultValue} :
    (∃ declared, c.scalarDefault = .ok declared ∧ (declared = none ∧ none = default ∨
      ∃ v n, declared = some v ∧ v.IsSafeInteger n ∧ allowed n ∧ some (.integer n) = default)) ↔
      c.DefaultAmong allowed default := by
  constructor
  · rintro ⟨declared, hdeclared, ⟨rfl, rfl⟩ | ⟨v, n, rfl, hn, hallowed, rfl⟩⟩
    · exact .absent (scalarDefault_eq_ok_none.mp hdeclared)
    · exact .declared (scalarDefault_eq_ok_some.mp hdeclared).1 hn hallowed
  · rintro (h | ⟨h, hn, hallowed⟩)
    · exact ⟨none, scalarDefault_eq_ok_none.mpr h, .inl ⟨rfl, rfl⟩⟩
    · exact ⟨_, scalarDefault_eq_ok_some.mpr ⟨h, hn.not_isNested⟩, .inr ⟨_, _, rfl, hn, hallowed, rfl⟩⟩

/-- A default within bounds is exactly one that can be read as such. -/
theorem exists_integerDefault_iff {bounds : Bounds} :
    (∃ declared default, c.scalarDefault = .ok declared ∧
      integerDefault bounds declared = .ok default) ↔ c.DefaultWithin bounds := by
  simp only [scalarDefault_eq_ok, integerDefault_eq_ok]
  constructor
  · rintro ⟨declared, default, ⟨rfl, -⟩, ⟨hnone, -⟩ | ⟨v, n, hv, hn, hbounds, -⟩⟩ w hw
    · simp [hw] at hnone
    · cases hw.symm.trans hv
      exact ⟨n, hn, hbounds⟩
  · intro h
    cases hd : c.declaredDefault? with
    | none => exact ⟨none, none, by simp⟩
    | some v =>
        obtain ⟨n, hn, hbounds⟩ := h v hd
        refine ⟨some v, some (.integer n), ⟨rfl, ?_⟩, .inr ⟨v, n, rfl, hn, hbounds, rfl⟩⟩
        obtain ⟨x, rfl, -⟩ := hn
        simp

/-! ## Any kind -/

theorem knownKind_eq_ok {kind : ColumnKind} :
    c.knownKind = .ok kind ↔ ColumnKind.ofToken? c.kind = some kind := by
  unfold knownKind
  split <;> simp_all

theorem validate_eq_ok : c.validate = .ok column ↔ ∃ kind,
    ColumnKind.ofToken? c.kind = some kind ∧ rule kind c = .ok column := by
  simp only [validate, bind_eq_ok, knownKind_eq_ok]

/-- What every rule keeps of a declaration. -/
structure Keeps (c : ColumnDeclaration) (column : Column) : Prop where
  name : column.name = c.name
  nullable : column.nullable = c.nullable

/-- What every rule makes of a declaration. -/
structure Outline (kind : ColumnKind) (c : ColumnDeclaration) (column : Column) : Prop
    extends Keeps c column where
  type_kind : column.type.kind = kind
  foreignKey : column.foreignKey = none

theorem rule_outline {kind : ColumnKind} (h : rule kind c = .ok column) :
    Outline kind c column := by
  cases kind with
  | integer =>
      obtain ⟨_, _, _, _, _, -, -, -, -, -, -, -, rfl⟩ := integer_eq_ok.mp h
      exact ⟨⟨rfl, rfl⟩, rfl, rfl⟩
  | serial =>
      obtain ⟨_, -, hnullable, -, -, -, rfl⟩ := serial_eq_ok.mp h
      exact ⟨⟨rfl, hnullable.symm⟩, rfl, rfl⟩
  | timestamp =>
      obtain ⟨_, _, -, -, rfl⟩ := timestamp_eq_ok.mp h
      exact ⟨⟨rfl, rfl⟩, rfl, rfl⟩
  | string =>
      obtain ⟨_, _, _, _, -, -, -, -, rfl⟩ := string_eq_ok.mp h
      exact ⟨⟨rfl, rfl⟩, rfl, rfl⟩
  | binary =>
      obtain ⟨_, _, _, _, -, -, -, -, rfl⟩ := binary_eq_ok.mp h
      exact ⟨⟨rfl, rfl⟩, rfl, rfl⟩
  | boolean =>
      obtain ⟨_, _, -, -, rfl⟩ := boolean_eq_ok.mp h
      exact ⟨⟨rfl, rfl⟩, rfl, rfl⟩
  | code =>
      obtain ⟨_, _, _, -, -, -, -, rfl⟩ := code_eq_ok.mp h
      exact ⟨⟨rfl, rfl⟩, rfl, rfl⟩
  | foreignKey => simp [rule] at h

theorem validate_outline (h : c.validate = .ok column) :
    ∃ kind, ColumnKind.ofToken? c.kind = some kind ∧ Outline kind c column := by
  obtain ⟨kind, hkind, hrule⟩ := validate_eq_ok.mp h
  exact ⟨kind, hkind, rule_outline hrule⟩

end ColumnDeclaration

end SchemaCompiler
