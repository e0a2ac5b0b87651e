import SchemaCompiler.Proofs.ForeignKey.Resolution
import Mathlib.Data.List.Nodup

/-! # What the rules promise of a column

Every number of a column is one that doubles hold exactly, and an enumeration repeats neither a code nor a
name. References take over the numbers of their targets, so they keep the promise. -/

namespace SchemaCompiler

/-! ## The promise -/

/-- An integer that doubles hold exactly. -/
def IsSafeInteger (n : Int64) : Prop :=
  n.toInt.natAbs ≤ maxSafeInteger.toInt

instance (n : Int64) : Decidable (IsSafeInteger n) :=
  inferInstanceAs (Decidable (_ ≤ _))

structure Bounds.IsValid (b : Bounds) : Prop where
  min : IsSafeInteger b.min
  max : IsSafeInteger b.max

/-- The code of a value as an integer, and its name. -/
def CodeValue.pair (v : CodeValue) : Int64 × String :=
  ((v.code : Nat), v.name)

/-- A declared value pairs a safe integer and a name. -/
structure CodeDeclaration.Denotes (d : CodeDeclaration) (p : Int64 × String) : Prop where
  code : d.code.IsSafeInteger p.1
  name : d.value = p.2

structure CodeDomain.IsValid (d : CodeDomain) : Prop where
  codes : (d.values.map (·.code)).Nodup
  names : (d.values.map (·.name)).Nodup
  accepted : ∀ v ∈ d.values, Identifier.code.accepts v.name

def ColumnType.IsValid : ColumnType → Prop
  | .integer _ _ _ bounds => bounds.IsValid
  | .serial _ bounds => bounds.IsValid
  | .timestamp _ bounds => bounds.IsValid
  | .string minLength maxLength =>
    (∀ least, minLength = some least → IsSafeInteger least) ∧ IsSafeInteger maxLength
  | .binary minSize maxSize => IsSafeInteger minSize ∧ IsSafeInteger maxSize
  | .boolean => True
  | .code domain => domain.IsValid

def DefaultValue.IsValid : DefaultValue → Prop
  | .integer n => IsSafeInteger n
  | .empty => True
  | .hex _ => True

structure Column.IsValid (c : Column) : Prop where
  type : c.type.IsValid
  default : ∀ v, c.default = some v → v.IsValid

theorem IntegerSize.bounds_isValid (size : IntegerSize) (unsigned : Bool) :
    (size.bounds unsigned).IsValid := by
  cases size <;> cases unsigned <;> exact ⟨by decide, by decide⟩

theorem ColumnType.bounds_isValid {type : ColumnType} {bounds : Bounds} (h : type.IsValid)
    (hbounds : type.bounds? = some bounds) : bounds.IsValid := by
  cases type with
  | integer | serial | timestamp =>
      cases hbounds
      exact h
  | boolean =>
      cases hbounds
      exact ⟨by decide, by decide⟩
  | code =>
      cases hbounds
      exact IntegerSize.bounds_isValid .tiny true
  | string | binary => cases hbounds

/-! ## Enumerations that grow -/

theorem isValid_nil : CodeDomain.IsValid ⟨[]⟩ :=
  ⟨by simp, by simp, by simp⟩

theorem nodup_map_append {α β : Type} {f : α → β} {as : List α} {a : α} :
    ((as ++ [a]).map f).Nodup ↔ (as.map f).Nodup ∧ ∀ b ∈ as, f b ≠ f a := by
  simp [List.nodup_append]

theorem isValid_append {before : List CodeValue} {v : CodeValue} :
    CodeDomain.IsValid ⟨before ++ [v]⟩ ↔ CodeDomain.IsValid ⟨before⟩ ∧
      Identifier.code.accepts v.name ∧ (∀ b ∈ before, b.code ≠ v.code) ∧
        ∀ b ∈ before, b.name ≠ v.name := by
  constructor
  · intro h
    obtain ⟨hcodes, hcode⟩ := nodup_map_append.mp h.codes
    obtain ⟨hnames, hname⟩ := nodup_map_append.mp h.names
    exact ⟨⟨hcodes, hnames, fun b hb => h.accepted b (List.mem_append_left _ hb)⟩,
      h.accepted v (by simp), hcode, hname⟩
  · rintro ⟨h, haccepts, hcode, hname⟩
    refine ⟨nodup_map_append.mpr ⟨h.codes, hcode⟩, nodup_map_append.mpr ⟨h.names, hname⟩, ?_⟩
    simpa [or_imp, forall_and] using ⟨h.accepted, haccepts⟩

theorem CodeDomain.IsValid.of_append {before rest : List CodeValue}
    (h : CodeDomain.IsValid ⟨before ++ rest⟩) : CodeDomain.IsValid ⟨before⟩ := by
  have hsub : before.Sublist (before ++ rest) := List.sublist_append_left ..
  exact ⟨h.codes.sublist (hsub.map _), h.names.sublist (hsub.map _),
    fun v hv => h.accepted v (hsub.subset hv)⟩

/-! ## Codes as words -/

theorem toInt_code (code : Fin 256) : ((code : Nat) : Int64).toInt = code :=
  Word64.toInt_natCast (by omega)

theorem natCast_injective {a b : Fin 256} (h : ((a : Nat) : Int64) = ((b : Nat) : Int64)) : a = b := by
  have hvalue := congrArg Int64.toInt h
  rw [toInt_code, toInt_code, Int.natCast_inj] at hvalue
  exact Fin.ext hvalue

theorem isCode_natCast (code : Fin 256) :
    (0 : Int64) ≤ ((code : Nat) : Int64) ∧ ((code : Nat) : Int64) ≤ 255 := by
  rw [Int64.le_iff_toInt_le, Int64.le_iff_toInt_le, toInt_code]
  exact ⟨Int.natCast_nonneg _, Int.ofNat_le.mpr (Nat.le_of_lt_succ code.isLt)⟩

theorem isSafeInteger_code (code : Fin 256) : IsSafeInteger ((code : Nat) : Int64) := by
  have hlt := code.isLt
  rw [IsSafeInteger, toInt_code, toInt_maxSafeInteger]
  omega

/-- Nothing is cut off an integer within the range of codes. -/
theorem natCast_of_isCode {n : Int64} (hleast : 0 ≤ n) (hgreatest : n ≤ 255) :
    ((n.toNatClampNeg % 256 : Nat) : Int64) = n := by
  have hleast : 0 ≤ n.toInt := Int64.le_iff_toInt_le.mp hleast
  have hgreatest : n.toInt ≤ 255 := Int64.le_iff_toInt_le.mp hgreatest
  have hnat : n.toNatClampNeg = n.toInt.toNat := rfl
  rw [← Int64.toInt_inj, Word64.toInt_natCast (by omega), hnat]
  omega

/-! ## Fields -/

theorem Json.IsSafeInteger.isSafeInteger {v : Json} {n : Int64} (h : v.IsSafeInteger n) :
    SchemaCompiler.IsSafeInteger n := by
  obtain ⟨_, -, -, hn⟩ := h
  exact hn

/-- A safe integer is read as itself where it is given as a value. -/
theorem IsSafeInteger.int {n : Int64} (h : IsSafeInteger n) : (Json.int n).IsSafeInteger n :=
  ⟨_, rfl, Json.Number.value_ofInt64 n, h⟩

namespace ColumnDeclaration

variable {c : ColumnDeclaration} {column : Column} {field : String} {bounds : Bounds}

theorem limit_isSafe {absent n : Int64} {declared : Option Json} (habsent : IsSafeInteger absent)
    (h : limit field bounds absent declared = .ok n) : IsSafeInteger n := by
  cases declared with
  | none =>
      cases h
      exact habsent
  | some v => exact (safeIntegerWithin_eq_ok.mp h).1.isSafeInteger

theorem optionalLimit_isSafe {limit : Option Int64} {declared : Option Json}
    (h : optionalLimit field bounds declared = .ok limit) (n : Int64) (hn : limit = some n) :
    IsSafeInteger n := by
  cases declared with
  | none =>
      cases h
      cases hn
  | some v =>
      obtain ⟨m, hm, hlimit⟩ := bind_eq_ok.mp h
      cases pure_eq_ok.mp hlimit
      cases hn
      exact (safeIntegerWithin_eq_ok.mp hm).1.isSafeInteger

theorem requiredLimit_isSafe {n : Int64} {declared : Option Json}
    (h : requiredLimit field declared = .ok n) : IsSafeInteger n := by
  cases declared with
  | none => cases h
  | some v => exact (safeIntegerWithin_eq_ok.mp h).1.isSafeInteger

/-! ## Defaults -/

variable {declared : Option Json} {default : Option DefaultValue}

theorem integerDefault_isValid (h : integerDefault bounds declared = .ok default)
    (v : DefaultValue) (hv : default = some v) : v.IsValid := by
  rcases integerDefault_eq_ok.mp h with ⟨-, hnone⟩ | ⟨_, n, -, hn, -, hsome⟩
  · rw [← hnone] at hv
    cases hv
  · rw [← hsome] at hv
    cases hv
    exact hn.isSafeInteger

theorem timestampDefault_isValid {unsigned : Bool}
    (h : timestampDefault unsigned declared = .ok default) (v : DefaultValue)
    (hv : default = some v) : v.IsValid := by
  cases declared with
  | none =>
      cases h
      cases hv
  | some json =>
      simp only [timestampDefault, guard_eq_ok, bind_eq_ok, safeInteger_eq_ok] at h
      obtain ⟨-, n, hn, hzero⟩ := h
      split at hzero
      · next hzero' =>
          cases pure_eq_ok.mp hzero
          cases hv
          exact hzero' ▸ hn.isSafeInteger
      · simp at hzero

theorem stringDefault_isValid {minLength : Option Int64}
    (h : stringDefault minLength declared = .ok default) (v : DefaultValue)
    (hv : default = some v) : v.IsValid := by
  unfold stringDefault at h
  split at h
  · cases h
    cases hv
  · split at h
    · split at h
      · cases h
      · cases h
        cases hv
        trivial
    · cases h

theorem binaryDefault_isValid {maxSize : Int64} (h : binaryDefault maxSize declared = .ok default)
    (v : DefaultValue) (hv : default = some v) : v.IsValid := by
  unfold binaryDefault at h
  split at h
  · cases h
    cases hv
  · split at h
    · cases h
    · split at h
      · cases h
      · split at h
        · cases h
          cases hv
          trivial
        · cases h
          cases hv
          trivial

theorem codeDefault_isValid {domain : CodeDomain} (h : codeDefault domain declared = .ok default)
    (v : DefaultValue) (hv : default = some v) : v.IsValid := by
  rcases codeDefault_eq_ok.mp h with ⟨-, rfl⟩ | ⟨_, n, -, hn, -, rfl⟩
  · cases hv
  · cases hv
    exact hn.isSafeInteger

/-! ## Enumerations -/

theorem codeValue_eq_ok {before : List CodeValue} {d : CodeDeclaration} {v : CodeValue} :
    codeValue before d = .ok v ↔ d.Denotes v.pair ∧ Identifier.code.accepts v.name ∧
      (∀ b ∈ before, b.code ≠ v.code) ∧ ∀ b ∈ before, b.name ≠ v.name := by
  simp only [codeValue, bind_eq_ok, guard_eq_ok, pure_eq_ok, safeIntegerWithin_eq_ok,
    Bounds.contains_iff, maxCode]
  constructor
  · rintro ⟨n, ⟨hn, hleast, hgreatest⟩, haccepts, hcode, hname, rfl⟩
    have hkept : ((n.toNatClampNeg % 256 : Nat) : Int64) = n := natCast_of_isCode hleast hgreatest
    refine ⟨⟨?_, rfl⟩, by simpa using haccepts, by simpa using hcode, by simpa using hname⟩
    rw [CodeValue.pair, hkept]
    exact hn
  · rintro ⟨⟨hn, hd⟩, haccepts, hcode, hname⟩
    obtain ⟨hleast, hgreatest⟩ := isCode_natCast v.code
    have hsame : (⟨((v.code : Nat) : Int64).toNatClampNeg % 256, Nat.mod_lt _ (by decide)⟩ : Fin 256)
        = v.code :=
      natCast_injective (natCast_of_isCode hleast hgreatest)
    refine ⟨(v.code : Nat), ⟨hn, hleast, hgreatest⟩, ?_⟩
    rw [show d.value = v.name from hd, hsame]
    exact ⟨by simpa using haccepts, by simpa using hcode, by simpa using hname, rfl⟩

/-- Values are read one by one behind those that stand before them, as long as the enumeration stays
valid. -/
theorem codeValues_eq_ok {before values : List CodeValue} {ds : List CodeDeclaration}
    (hbefore : CodeDomain.IsValid ⟨before⟩) : codeValues before ds = .ok values ↔
      ∃ rest, values = before ++ rest ∧ List.Forall₂ (fun d v => d.Denotes v.pair) ds rest ∧
        CodeDomain.IsValid ⟨values⟩ := by
  induction ds generalizing before with
  | nil =>
      rw [codeValues, Except.ok.injEq]
      constructor
      · rintro rfl
        exact ⟨[], by simp, .nil, hbefore⟩
      · rintro ⟨_, rfl, ⟨⟩, -⟩
        simp
  | cons d ds ih =>
      simp only [codeValues, bind_eq_ok, codeValue_eq_ok]
      constructor
      · rintro ⟨v, ⟨hd, hv⟩, hrest⟩
        obtain ⟨rest, rfl, hds, hvalid⟩ := (ih (isValid_append.mpr ⟨hbefore, hv⟩)).mp hrest
        exact ⟨v :: rest, by simp, .cons hd hds, hvalid⟩
      · rintro ⟨_, rfl, hall, hvalid⟩
        obtain ⟨v, rest, hd, hds, rfl⟩ := List.forall₂_cons_left_iff.mp hall
        have hsplit : before ++ v :: rest = before ++ [v] ++ rest := List.append_cons ..
        have hfirst : CodeDomain.IsValid ⟨before ++ [v]⟩ := (hsplit ▸ hvalid).of_append
        exact ⟨v, ⟨hd, (isValid_append.mp hfirst).2⟩,
          (ih hfirst).mpr ⟨rest, hsplit, hds, hvalid⟩⟩

/-! ## Rules -/

theorem isSafeInteger_one : IsSafeInteger 1 := by decide

theorem rule_isValid {kind : ColumnKind} (h : rule kind c = .ok column) : column.IsValid := by
  cases kind with
  | integer =>
      obtain ⟨size, min, max, _, _, -, hmin, hmax, -, -, -, hdefault, rfl⟩ := integer_eq_ok.mp h
      have habsolute := size.bounds_isValid c.unsigned
      refine ⟨⟨limit_isSafe ?_ hmin, limit_isSafe habsolute.max hmax⟩, integerDefault_isValid hdefault⟩
      split
      · exact isSafeInteger_one
      · exact habsolute.min
  | serial =>
      obtain ⟨size, -, -, -, -, -, rfl⟩ := serial_eq_ok.mp h
      exact ⟨⟨isSafeInteger_one, (size.bounds_isValid true).max⟩, by simp⟩
  | timestamp =>
      obtain ⟨_, _, -, hdefault, rfl⟩ := timestamp_eq_ok.mp h
      exact ⟨IntegerSize.big.bounds_isValid c.unsigned, timestampDefault_isValid hdefault⟩
  | string =>
      obtain ⟨_, _, _, _, hmax, hmin, -, hdefault, rfl⟩ := string_eq_ok.mp h
      exact ⟨⟨optionalLimit_isSafe hmin, requiredLimit_isSafe hmax⟩, stringDefault_isValid hdefault⟩
  | binary =>
      obtain ⟨_, _, _, _, hmax, hmin, -, hdefault, rfl⟩ := binary_eq_ok.mp h
      have hzero : IsSafeInteger 0 := by decide
      exact ⟨⟨limit_isSafe hzero hmin, requiredLimit_isSafe hmax⟩, binaryDefault_isValid hdefault⟩
  | boolean =>
      obtain ⟨_, _, -, hdefault, rfl⟩ := boolean_eq_ok.mp h
      exact ⟨trivial, integerDefault_isValid hdefault⟩
  | code =>
      obtain ⟨values, _, _, -, hvalues, -, hdefault, rfl⟩ := code_eq_ok.mp h
      obtain ⟨_, -, -, hvalid⟩ := (codeValues_eq_ok isValid_nil).mp hvalues
      exact ⟨hvalid, codeDefault_isValid hdefault⟩
  | foreignKey => cases h

theorem refer_isValid {home : DatabaseDeclaration} {path : String} {t : Target}
    {resolved : Column} (hresolved : resolved.IsValid)
    (h : c.refer home path t resolved = .ok column) : column.IsValid := by
  obtain ⟨-, size, unsigned, bounds, _, _, _, hreferable, -, -, hdefault, rfl⟩ := refer_eq_ok.mp h
  have hbounds := (ColumnType.exists_referable?_iff.mp ⟨size, unsigned, hreferable⟩).2
  exact ⟨ColumnType.bounds_isValid hresolved.type hbounds, integerDefault_isValid hdefault⟩

end ColumnDeclaration

theorem ForeignKey.Settles.isValid {databases : List DatabaseDeclaration} {n : Nat} {t : Target}
    {column : Column} (h : Settles databases n t column) : column.IsValid := by
  induction h with
  | declared _ hvalidate =>
      obtain ⟨kind, -, hrule⟩ := ColumnDeclaration.validate_eq_ok.mp hvalidate
      exact ColumnDeclaration.rule_isValid hrule
  | reference _ _ _ _ hrefer ih => exact ColumnDeclaration.refer_isValid ih hrefer

end SchemaCompiler
