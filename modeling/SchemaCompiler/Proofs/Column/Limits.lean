import SchemaCompiler.Proofs.Column.Validity
import SchemaCompiler.Proofs.Schema.Compilation
import Mathlib

/-! # The limits of compiled columns

What a type may hold: bounds inside those of its size, lengths in order, enumerations without repetition,
and defaults that the type itself admits. Rules establish it from declared values of any kind, and
references hand it on from their targets. -/

namespace SchemaCompiler

/-! ## The promise -/

/-- A hexadecimal digit as bytes are written in a compiled column. -/
def ByteLiteral.IsUpperDigit (c : Char) : Prop :=
  ('0' ≤ c ∧ c ≤ '9') ∨ ('A' ≤ c ∧ c ≤ 'F')

/-- The digits of whole bytes. -/
structure ByteLiteral.IsBytes (digits : String) : Prop where
  even : digits.length % 2 = 0
  upper : ∀ c ∈ digits.toList, IsUpperDigit c

namespace ColumnType

/-- The limits of a type are in order. -/
inductive InOrder : ColumnType → Prop where
  | integer {size : IntegerSize} {unsigned autoIncrement : Bool} {bounds : Bounds}
      (least : (size.bounds unsigned).min ≤ bounds.min) (ordered : bounds.min ≤ bounds.max)
      (greatest : bounds.max ≤ (size.bounds unsigned).max) :
      InOrder (.integer size unsigned autoIncrement bounds)
  | serial {size : IntegerSize} : InOrder (.serial size ⟨1, (size.bounds true).max⟩)
  | timestamp {unsigned : Bool} : InOrder (.timestamp unsigned (IntegerSize.big.bounds unsigned))
  | string {minLength : Option Int64} {maxLength : Int64} (positive : 1 ≤ maxLength)
      (within : ∀ least, minLength = some least → 1 ≤ least ∧ least ≤ maxLength) :
      InOrder (.string minLength maxLength)
  | binary {minSize maxSize : Int64} (positive : 1 ≤ maxSize)
      (within : minSize = 0 ∨ 1 ≤ minSize ∧ minSize ≤ maxSize) : InOrder (.binary minSize maxSize)
  | boolean : InOrder .boolean
  | code {domain : CodeDomain} (nonempty : domain.values ≠ [])
      (codes : (domain.values.map (·.code)).Nodup) (names : (domain.values.map (·.name)).Nodup)
      (accepted : ∀ v ∈ domain.values, Identifier.code.Matches v.name) : InOrder (.code domain)

/-- The defaults of a type. Columns that the server numbers have none. -/
inductive Admits : ColumnType → DefaultValue → Prop where
  | integer {size : IntegerSize} {unsigned : Bool} {bounds : Bounds} {n : Int64} (least : bounds.min ≤ n)
      (greatest : n ≤ bounds.max) : Admits (.integer size unsigned false bounds) (.integer n)
  | timestamp {bounds : Bounds} : Admits (.timestamp true bounds) (.integer 0)
  | string {maxLength : Int64} : Admits (.string none maxLength) .empty
  | noBytes {minSize maxSize : Int64} : Admits (.binary minSize maxSize) .empty
  | bytes {minSize maxSize : Int64} {digits : String} (nonempty : digits ≠ "")
      (bytes : ByteLiteral.IsBytes digits) (fits : (ByteLiteral.size digits : Int) ≤ maxSize.toInt) :
      Admits (.binary minSize maxSize) (.hex digits)
  | boolean {n : Int64} (bit : n = 0 ∨ n = 1) : Admits .boolean (.integer n)
  | code {domain : CodeDomain} {v : CodeValue} (declared : v ∈ domain.values) :
      Admits (.code domain) (.integer (v.code : Nat))

end ColumnType

/-- A column whose limits, default and reference fit each other. -/
structure Column.InOrder (c : Column) : Prop where
  type : c.type.InOrder
  default : ∀ v, c.default = some v → c.type.Admits v
  serial : c.type.kind = .serial → c.nullable = false ∧ c.default = none ∧ c.foreignKey = none
  reference : ∀ fk, c.foreignKey = some fk →
    (∃ size unsigned bounds, c.type = .integer size unsigned false bounds) ∧
      (fk.onDelete = some .setNull → c.nullable)

/-! ## Bounds -/

/-- Whatever the size of a column, its rows can be numbered from one. -/
theorem IntegerSize.bounds_contains_one (size : IntegerSize) (unsigned : Bool) :
    (size.bounds unsigned).min ≤ 1 ∧ 1 ≤ (size.bounds unsigned).max := by
  cases size <;> cases unsigned <;> decide

/-! ## Digits -/

namespace ByteLiteral

theorem toNat_lt_of_isHexDigit {c : Char} (h : isHexDigit c) : c.toNat < 128 := by
  simp only [isHexDigit, Bool.or_eq_true, Bool.and_eq_true, decide_eq_true_eq] at h
  rcases h with (⟨-, h⟩ | ⟨-, h⟩) | ⟨-, h⟩
  · exact Identifier.toNat_lt_of_le h (by decide)
  · exact Identifier.toNat_lt_of_le h (by decide)
  · exact Identifier.toNat_lt_of_le h (by decide)

/-- Upper-case digits come from digits of either case. -/
theorem isUpperDigit_toUpper {c : Char} (h : isHexDigit c) : IsUpperDigit c.toUpper := by
  have hall : ∀ n < 128, isHexDigit (Char.ofNat n) → IsUpperDigit (Char.ofNat n).toUpper := by
    unfold IsUpperDigit
    decide
  have hc := hall c.toNat (toNat_lt_of_isHexDigit h)
  rw [Char.ofNat_toNat] at hc
  exact hc h

theorem toList_quoted (digits : String) :
    ("X'" ++ digits ++ "'").toList = 'X' :: '\'' :: (digits.toList ++ ['\'']) := by
  rw [String.toList_append, String.toList_append]
  rfl

theorem beforeQuote?_eq_some {s body : List Char} : beforeQuote? s = some body ↔ s = body ++ ['\''] := by
  unfold beforeQuote?
  constructor
  · intro h
    split at h
    · next hquote =>
        cases h
        obtain ⟨front, rfl⟩ := List.getLast?_eq_some_iff.mp hquote
        rw [List.dropLast_concat]
    · cases h
  · rintro rfl
    rw [if_pos List.getLast?_concat, List.dropLast_concat]

theorem isBytes_of_digits? {literal digits : String} (h : digits? literal = some digits) :
    IsBytes digits := by
  obtain ⟨body, -, hbody⟩ := Option.bind_eq_some_iff.mp h
  split at hbody
  · next hdigits =>
      cases hbody
      refine ⟨?_, ?_⟩
      · rw [String.length_ofList, List.length_map]
        exact hdigits.1
      · intro c hc
        rw [String.toList_ofList] at hc
        obtain ⟨d, hd, rfl⟩ := List.mem_map.mp hc
        exact isUpperDigit_toUpper (List.all_eq_true.mp hdigits.2 d hd)
  · cases hbody

end ByteLiteral

namespace ColumnDeclaration

variable {c : ColumnDeclaration} {column : Column} {field : String} {bounds : Bounds}

/-! ## Fields -/

theorem optionalLimit_contains {least : Option Int64} {declared : Option Json}
    (h : optionalLimit field bounds declared = .ok least) (n : Int64) (hn : least = some n) :
    bounds.contains n := by
  cases declared with
  | none =>
      cases h
      cases hn
  | some v =>
      obtain ⟨m, hm, hleast⟩ := bind_eq_ok.mp h
      cases pure_eq_ok.mp hleast
      cases hn
      exact (safeIntegerWithin_eq_ok.mp hm).2

theorem requiredLimit_eq_ok {n : Int64} {declared : Option Json} :
    requiredLimit field declared = .ok n ↔ (∃ v, declared = some v ∧ v.IsSafeInteger n) ∧ 1 ≤ n := by
  cases declared with
  | none => simp [requiredLimit]
  | some v =>
      simp only [requiredLimit, positiveInteger, safeIntegerWithin_eq_ok, Bounds.contains_iff,
        Option.some.injEq, exists_eq_left']
      constructor
      · rintro ⟨hn, hpositive, -⟩
        exact ⟨hn, hpositive⟩
      · rintro ⟨hn, hpositive⟩
        have hsafe := hn.isSafeInteger
        unfold IsSafeInteger at hsafe
        exact ⟨hn, hpositive, Int64.le_iff_toInt_le.mpr (by omega)⟩

/-! ## Limits that may be declared -/

theorem safeIntegerWithin_int {n : Int64} (hsafe : IsSafeInteger n) (h : bounds.contains n) :
    safeIntegerWithin bounds field (.int n) = .ok n :=
  safeIntegerWithin_eq_ok.mpr ⟨hsafe.int, h⟩

theorem limit_of_contains {absent n : Int64} (hsafe : IsSafeInteger n) (h : bounds.contains n) :
    limit field bounds absent (some (.int n)) = .ok n :=
  safeIntegerWithin_int hsafe h

theorem optionalLimit_of_contains {least : Option Int64}
    (h : ∀ n, least = some n → IsSafeInteger n ∧ bounds.contains n) :
    optionalLimit field bounds (least.map .int) = .ok least := by
  cases least with
  | none => rfl
  | some n =>
      obtain ⟨hsafe, hn⟩ := h n rfl
      exact bind_eq_ok.mpr ⟨n, safeIntegerWithin_int hsafe hn, rfl⟩

theorem requiredLimit_of_positive {n : Int64} (hsafe : IsSafeInteger n) (h : 1 ≤ n) :
    requiredLimit field (some (.int n)) = .ok n :=
  requiredLimit_eq_ok.mpr ⟨⟨_, rfl, hsafe.int⟩, h⟩

/-- Limits inside those of a size are safe, as the limits of every size are. -/
theorem isSafeInteger_of_contains {size : IntegerSize} {unsigned : Bool} {n : Int64}
    (h : (size.bounds unsigned).contains n) : IsSafeInteger n := by
  obtain ⟨hmin, hmax⟩ := size.bounds_isValid unsigned
  obtain ⟨hleast, hgreatest⟩ := Bounds.contains_iff.mp h
  rw [Int64.le_iff_toInt_le] at hleast hgreatest
  unfold IsSafeInteger at *
  omega

theorem eq_zero_or_one {n : Int64} (hleast : 0 ≤ n) (hgreatest : n ≤ 1) : n = 0 ∨ n = 1 := by
  have hleast : 0 ≤ n.toInt := Int64.le_iff_toInt_le.mp hleast
  have hgreatest : n.toInt ≤ 1 := Int64.le_iff_toInt_le.mp hgreatest
  have hbit : n.toInt = 0 ∨ n.toInt = 1 := by omega
  exact hbit.imp Int64.toInt_inj.mp Int64.toInt_inj.mp

/-! ## Defaults -/

variable {declared : Option Json} {default : Option DefaultValue} {v : DefaultValue}

theorem integerDefault_within (h : integerDefault bounds declared = .ok default)
    (hv : default = some v) :
    declared.isSome ∧ ∃ n, v = .integer n ∧ bounds.min ≤ n ∧ n ≤ bounds.max := by
  rcases integerDefault_eq_ok.mp h with ⟨-, hnone⟩ | ⟨_, n, hdeclared, -, hn, hsome⟩
  · rw [← hnone] at hv
    cases hv
  · rw [← hsome] at hv
    cases hv
    exact ⟨by simp [hdeclared], n, rfl, Bounds.contains_iff.mp hn⟩

theorem timestampDefault_admits {unsigned : Bool}
    (h : timestampDefault unsigned declared = .ok default) (hv : default = some v) :
    (ColumnType.timestamp unsigned bounds).Admits v := by
  cases declared with
  | none =>
      cases h
      cases hv
  | some json =>
      simp only [timestampDefault, guard_eq_ok, bind_eq_ok] at h
      obtain ⟨hunsigned, n, -, hzero⟩ := h
      split at hzero
      · cases pure_eq_ok.mp hzero
        cases hv
        cases unsigned with
        | false => exact absurd rfl hunsigned
        | true => exact .timestamp
      · simp at hzero

theorem stringDefault_admits {minLength : Option Int64} {maxLength : Int64}
    (h : stringDefault minLength declared = .ok default) (hv : default = some v) :
    (ColumnType.string minLength maxLength).Admits v := by
  unfold stringDefault at h
  split at h
  · cases h
    cases hv
  · split at h
    · split at h
      · cases h
      · cases h
        cases hv
        exact .string
    · cases h

theorem isBytes_of_byteDigits? {json : Json} {digits : String} (h : byteDigits? json = some digits)
    (hne : digits ≠ "") : ByteLiteral.IsBytes digits := by
  unfold byteDigits? at h
  split at h
  · split at h
    · cases h
      exact absurd rfl hne
    · exact ByteLiteral.isBytes_of_digits? h
  · cases h

theorem binaryDefault_admits {minSize maxSize : Int64}
    (h : binaryDefault maxSize declared = .ok default) (hv : default = some v) :
    (ColumnType.binary minSize maxSize).Admits v := by
  unfold binaryDefault at h
  split at h
  · cases h
    cases hv
  · split at h
    · cases h
    · next digits hdigits =>
        split at h
        · cases h
        · next hfits =>
            split at h
            · cases h
              cases hv
              exact .noBytes
            · next hne =>
                cases h
                cases hv
                exact .bytes hne (isBytes_of_byteDigits? hdigits hne) (Int.not_lt.mp hfits)

theorem codeDefault_admits {domain : CodeDomain} (h : codeDefault domain declared = .ok default)
    (hv : default = some v) : (ColumnType.code domain).Admits v := by
  rcases codeDefault_eq_ok.mp h with ⟨-, rfl⟩ | ⟨_, n, -, -, hcontains, rfl⟩
  · cases hv
  · cases hv
    simp only [CodeDomain.contains, List.any_eq_true, decide_eq_true_eq] at hcontains
    obtain ⟨value, hvalue, rfl⟩ := hcontains
    exact .code hvalue

/-! ## Enumerations -/

theorem codeDomain_inOrder {values : List CodeValue} {ds : List CodeDeclaration} (hne : ds ≠ [])
    (h : codeValues [] ds = .ok values) : (ColumnType.code ⟨values⟩).InOrder := by
  obtain ⟨_, rfl, hds, hvalid⟩ := (codeValues_eq_ok isValid_nil).mp h
  refine .code ?_ hvalid.codes hvalid.names
    fun v hv => Identifier.accepts_iff_matches.mp (hvalid.accepted v hv)
  rintro rfl
  exact hne (List.forall₂_nil_right_iff.mp hds)

/-! ## Rules -/

theorem rule_inOrder {kind : ColumnKind} (h : rule kind c = .ok column) : column.InOrder := by
  cases kind with
  | integer =>
      obtain ⟨size, min, max, _, _, -, hmin, hmax, hle, -, hnumbered, hdefault, rfl⟩ :=
        integer_eq_ok.mp h
      obtain ⟨hone, hone'⟩ := size.bounds_contains_one c.unsigned
      have hleast : (size.bounds c.unsigned).min ≤ min := by
        rcases (limit_eq_ok.mp hmin).eq_or_within with rfl | ⟨h, -⟩
        · split
          · exact hone
          · exact Int64.le_refl _
        · exact h
      have hgreatest : max ≤ (size.bounds c.unsigned).max := by
        rcases (limit_eq_ok.mp hmax).eq_or_within with rfl | ⟨-, h⟩
        · exact Int64.le_refl _
        · exact h
      refine ⟨.integer hleast hle hgreatest, ?_, by simp [ColumnType.kind], by simp⟩
      intro v hv
      obtain ⟨hdeclared, n, rfl, hmin', hmax'⟩ := integerDefault_within hdefault hv
      -- a numbered column would have been refused for its default
      have hplain : c.autoIncrement = false := by
        by_contra hauto
        exact hnumbered ⟨by simpa using hauto, hdeclared⟩
      rw [hplain]
      exact .integer hmin' hmax'
  | serial =>
      obtain ⟨size, -, -, -, -, -, rfl⟩ := serial_eq_ok.mp h
      exact ⟨.serial, by simp, fun _ => ⟨rfl, rfl, rfl⟩, by simp⟩
  | timestamp =>
      obtain ⟨_, _, -, hdefault, rfl⟩ := timestamp_eq_ok.mp h
      exact ⟨.timestamp, fun _ => timestampDefault_admits hdefault, by simp [ColumnType.kind], by simp⟩
  | string =>
      obtain ⟨_, _, _, _, hmax, hmin, -, hdefault, rfl⟩ := string_eq_ok.mp h
      exact ⟨.string ((requiredLimit_eq_ok.mp hmax).2)
          fun n hn => Bounds.contains_iff.mp (optionalLimit_contains hmin n hn),
        fun _ => stringDefault_admits hdefault, by simp [ColumnType.kind], by simp⟩
  | binary =>
      obtain ⟨_, _, _, _, hmax, hmin, -, hdefault, rfl⟩ := binary_eq_ok.mp h
      exact ⟨.binary ((requiredLimit_eq_ok.mp hmax).2) (limit_eq_ok.mp hmin).eq_or_within,
        fun _ => binaryDefault_admits hdefault, by simp [ColumnType.kind], by simp⟩
  | boolean =>
      obtain ⟨_, _, -, hdefault, rfl⟩ := boolean_eq_ok.mp h
      refine ⟨.boolean, ?_, by simp [ColumnType.kind], by simp⟩
      intro v hv
      obtain ⟨-, n, rfl, hmin, hmax⟩ := integerDefault_within hdefault hv
      exact .boolean (eq_zero_or_one hmin hmax)
  | code =>
      obtain ⟨values, _, _, hne, hvalues, -, hdefault, rfl⟩ := code_eq_ok.mp h
      exact ⟨codeDomain_inOrder hne hvalues, fun _ => codeDefault_admits hdefault,
        by simp [ColumnType.kind], by simp⟩
  | foreignKey => cases h

/-! ## References -/

theorem setNull_of_deleteAction {action : Option OnDelete} (h : c.deleteAction = .ok action)
    (hnull : action = some .setNull) : c.nullable := by
  rcases deleteAction_eq_ok.mp h with ⟨-, rfl⟩ | ⟨_, a, -, -, hfits, rfl⟩
  · cases hnull
  · exact hfits (Option.some.inj hnull)

end ColumnDeclaration

/-- A type that references may point at hands on limits that are in order. -/
theorem ColumnType.InOrder.integer_of_referable? {type : ColumnType} (h : type.InOrder)
    {size : IntegerSize} {unsigned : Bool} {bounds : Bounds}
    (hreferable : type.referable? = some (size, unsigned, bounds)) :
    (ColumnType.integer size unsigned false bounds).InOrder := by
  cases h with
  | integer least ordered greatest =>
      cases hreferable
      exact .integer least ordered greatest
  | @serial size =>
      cases hreferable
      obtain ⟨hmin, hmax⟩ := size.bounds_contains_one true
      exact .integer hmin hmax (Int64.le_refl _)
  | code =>
      cases hreferable
      exact .integer (Int64.le_refl _) (by decide) (Int64.le_refl _)
  | timestamp | string | binary | boolean => cases hreferable

theorem ColumnDeclaration.refer_inOrder {c : ColumnDeclaration} {column : Column}
    {home : DatabaseDeclaration} {path : String} {t : Target} {resolved : Column}
    (hresolved : resolved.InOrder) (h : c.refer home path t resolved = .ok column) :
    column.InOrder := by
  obtain ⟨-, size, unsigned, bounds, _, _, _, hreferable, haction, -, hdefault, rfl⟩ :=
    refer_eq_ok.mp h
  refine ⟨hresolved.type.integer_of_referable? hreferable, ?_, by simp [ColumnType.kind], ?_⟩
  · intro v hv
    obtain ⟨-, n, rfl, hmin, hmax⟩ := integerDefault_within hdefault hv
    exact .integer hmin hmax
  · intro fk hfk
    cases hfk
    exact ⟨⟨size, unsigned, bounds, rfl⟩, setNull_of_deleteAction haction⟩

theorem ForeignKey.Settles.inOrder {databases : List DatabaseDeclaration} {n : Nat} {t : Target}
    {column : Column} (h : Settles databases n t column) : column.InOrder := by
  induction h with
  | declared _ hvalidate =>
      obtain ⟨kind, -, hrule⟩ := ColumnDeclaration.validate_eq_ok.mp hvalidate
      exact ColumnDeclaration.rule_inOrder hrule
  | reference _ _ _ _ hrefer ih => exact ColumnDeclaration.refer_inOrder ih hrefer

/-! ## Schemas -/

/-- A column is what a reference to it would settle as, hence in order. -/
theorem ColumnDeclaration.Becomes.inOrder {databases : List DatabaseDeclaration}
    {home : DatabaseDeclaration} {c : ColumnDeclaration} {column : Column}
    (h : c.Becomes databases home column) : column.InOrder := by
  rcases h with ⟨-, hvalidate⟩ | ⟨-, hresolve⟩
  · obtain ⟨kind, -, hrule⟩ := validate_eq_ok.mp hvalidate
    exact rule_inOrder hrule
  · obtain ⟨_, _, _, _, -, -, hsettles, hrefer⟩ := ForeignKey.settles_of_resolveFrom hresolve
    exact refer_inOrder hsettles.inOrder hrefer

theorem Document.Becomes.inOrder {d : Document} {s : Schema} (h : d.Becomes s)
    {database : Schema.Database} (hdatabase : database ∈ s.databases) {table : Schema.Table}
    (htable : table ∈ database.tables) {c : Column} (hc : c ∈ table.columns) : c.InOrder := by
  obtain ⟨_, -, hbecomesD⟩ := exists_of_mem_right h.databases hdatabase
  obtain ⟨_, -, hbecomesT⟩ := exists_of_mem_right hbecomesD.tables htable
  obtain ⟨_, -, -, hbecomesC⟩ := exists_of_mem_right hbecomesT.columns hc
  exact hbecomesC.inOrder

/-- Every column of a compiled schema is in order. -/
theorem Document.compile_columns_inOrder {d : Document} {s : Schema} (h : d.compile = .ok s)
    {database : Schema.Database} (hdatabase : database ∈ s.databases) {table : Schema.Table}
    (htable : table ∈ database.tables) {c : Column} (hc : c ∈ table.columns) : c.InOrder :=
  (compile_eq_ok.mp h).inOrder hdatabase htable hc

/-! ## A reference to an enumeration -/

/-- A reference with a default beyond the codes of its target, but not beyond its bounds. -/
def Document.stocked : Document where
  databases := [
    { name := "shop", kind := "fixed", tables := [{ name := "items", columns := [
        { name := "state", kind := "code", values := some [⟨.int 7, "SOLD"⟩, ⟨.int 5, "NEW"⟩],
          defaultValue := some (.int 5) },
        { name := "digest", kind := "binary", maxSize := some (.int 2), minSize := some (.int 2),
          defaultValue := some (.string "x'00fF'") },
        { name := "former", kind := "FK", nullable := true, path := some "items.state",
          onDelete := some "set null", defaultValue := some (.int 200) }] }] }]

namespace Schema.Stocked

def state : Column :=
  ⟨"state", false, some (.integer 5),
    .code ⟨[⟨⟨7, by decide⟩, "SOLD"⟩, ⟨⟨5, by decide⟩, "NEW"⟩]⟩, none⟩

def digest : Column := ⟨"digest", false, some (.hex "00FF"), .binary 2 2, none⟩

def former : Column :=
  ⟨"former", true, some (.integer 200), .integer .tiny true false ⟨0, 255⟩,
    some ⟨"shop", false, "items", "state", some .setNull⟩⟩

def columns : List Column := [state, digest, former]

def schema : Schema := ⟨[⟨"shop", .core, [⟨"items", columns, []⟩]⟩]⟩

end Schema.Stocked

theorem Document.compile_columns_inOrder_stocked :
    Document.stocked.compile = .ok Schema.Stocked.schema ∧
      ∀ c ∈ Schema.Stocked.columns, c.InOrder := by
  have h : Document.stocked.compile = .ok Schema.Stocked.schema := by cbv
  exact ⟨h, fun _ hc => compile_columns_inOrder h (.head _) (.head _) hc⟩

end SchemaCompiler
