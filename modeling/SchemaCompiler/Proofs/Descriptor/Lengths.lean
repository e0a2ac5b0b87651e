import SchemaCompiler.Proofs.Artifact.Columns
import SchemaCompiler.Proofs.Column.Integer

/-! # Lengths of defaults

A record publishes how short and how long the values of its column may be. No default is longer than that,
and no default string is shorter. The bytes of a default are never compared with the least size, so that a
record may publish a default that its own limits leave out. -/

namespace SchemaCompiler

/-- How long a default is: the empty literal has no length, and two digits make a byte. -/
def DefaultValue.length? : DefaultValue → Option Nat
  | .integer _ => none
  | .empty => some 0
  | .hex digits => some (ByteLiteral.size digits)

namespace Descriptor

/-- The limits that a record publishes leave room for values of a length. -/
structure ColumnRecord.AdmitsLength (r : ColumnRecord) (n : Nat) : Prop where
  least : ∀ key ∈ ["minLength", "minSize"], ∀ m : Int64, r.field? key = some (int m) → m.toInt ≤ n
  greatest : ∃ key ∈ ["maxLength", "maxSize"], ∃ m : Int64, r.field? key = some (int m) ∧ n ≤ m.toInt

variable {column : Column} {n : Nat}

theorem admitsLength_iff : (columnRecord column).AdmitsLength n ↔
    (∀ key ∈ ["minLength", "minSize"], ∀ m : Int64,
      (typeFields column.type).lookup key = some (int m) → m.toInt ≤ n) ∧
    ∃ key ∈ ["maxLength", "maxSize"], ∃ m : Int64,
      (typeFields column.type).lookup key = some (int m) ∧ n ≤ m.toInt := by
  have hfield : ∀ key ∈ typeKeys,
      (columnRecord column).field? key = (typeFields column.type).lookup key :=
    fun _ => field?_typeFields column
  have hleast : ∀ key ∈ ["minLength", "minSize"], key ∈ typeKeys := by decide
  have hgreatest : ∀ key ∈ ["maxLength", "maxSize"], key ∈ typeKeys := by decide
  constructor
  · rintro ⟨least, key, hkey, m, hm, hn⟩
    refine ⟨fun key hkey m hm => ?_, key, hkey, m, ?_, hn⟩
    · exact least key hkey m ((hfield key (hleast key hkey)).trans hm)
    · exact (hfield key (hgreatest key hkey)).symm.trans hm
  · rintro ⟨least, key, hkey, m, hm, hn⟩
    refine ⟨fun key hkey m hm => ?_, key, hkey, m, ?_, hn⟩
    · exact least key hkey m ((hfield key (hleast key hkey)).symm.trans hm)
    · exact (hfield key (hgreatest key hkey)).trans hm

theorem admitsLength_string {minLength : Option Int64} {maxLength : Int64}
    (h : column.type = .string minLength maxLength) : (columnRecord column).AdmitsLength n ↔
      (∀ least, minLength = some least → least.toInt ≤ n) ∧ n ≤ maxLength.toInt := by
  rw [admitsLength_iff, h]
  cases minLength <;> simp [typeFields, List.lookup]

theorem admitsLength_binary {minSize maxSize : Int64} (h : column.type = .binary minSize maxSize) :
    (columnRecord column).AdmitsLength n ↔ minSize.toInt ≤ n ∧ n ≤ maxSize.toInt := by
  rw [admitsLength_iff, h]
  simp [typeFields, List.lookup]

end Descriptor

namespace ColumnDeclaration

open Descriptor

variable {c : ColumnDeclaration} {column : Column} {v : DefaultValue}

/-- The default of a string is empty, and only where the record publishes no least length. -/
theorem string_admitsLength (h : c.string = .ok column) (hv : column.default = some v) :
    v.length? = some 0 ∧ (columnRecord column).AdmitsLength 0 := by
  obtain ⟨maxLength, minLength, declared, default, hmax, -, -, hdefault, rfl⟩ := string_eq_ok.mp h
  have hpositive : 1 ≤ maxLength.toInt := Int64.le_iff_toInt_le.mp (requiredLimit_eq_ok.mp hmax).2
  have hadmits : (ColumnType.string minLength maxLength).Admits v := stringDefault_admits hdefault hv
  cases hadmits with
  | string => exact ⟨rfl, (admitsLength_string rfl).mpr ⟨by simp, by omega⟩⟩

/-- A length is not below a limit that is zero unless it is declared exactly when it is not below the
declared one. -/
theorem LimitIs.le_iff {bounds : Bounds} {x : Option Json} {least : Int64} {n : Nat}
    (h : LimitIs bounds 0 x least) :
    least.toInt ≤ n ↔ ∀ json m, x = some json → json.IsSafeInteger m → m.toInt ≤ n := by
  cases h with
  | absent => simp
  | declared hleast _ _ =>
      constructor
      · rintro hn _ m ⟨⟩ hm
        rwa [hm.unique hleast]
      · intro hall
        exact hall _ _ rfl hleast

/-- A default byte string has no more bytes than it may have. -/
theorem binaryDefault_fits {maxSize : Int64} {declared : Option Json} {default : Option DefaultValue}
    (hpositive : 1 ≤ maxSize) (h : binaryDefault maxSize declared = .ok default)
    (hv : default = some v) : ∃ n, v.length? = some n ∧ n ≤ maxSize.toInt := by
  have hpositive : 1 ≤ maxSize.toInt := Int64.le_iff_toInt_le.mp hpositive
  have hadmits : (ColumnType.binary 0 maxSize).Admits v := binaryDefault_admits h hv
  cases hadmits with
  | noBytes => exact ⟨0, rfl, by omega⟩
  | bytes _ _ hfits => exact ⟨_, rfl, hfits⟩

/-- Defaults and the limits that records publish. A default string keeps to them. A default byte string is
never too long, and it is too short exactly where a greater least size is declared: any least size in order
is accepted, with the same default. -/
theorem default_lengths (c : ColumnDeclaration) :
    (∀ column v, c.string = .ok column → column.default = some v →
      v.length? = some 0 ∧ (columnRecord column).AdmitsLength 0) ∧
    ∀ column, c.binary = .ok column → ∃ least greatest, column.type = .binary least greatest ∧
      (∀ v, column.default = some v → ∃ n, v.length? = some n ∧ n ≤ greatest.toInt ∧
        ((columnRecord column).AdmitsLength n ↔
          ∀ json m, c.minSize = some json → json.IsSafeInteger m → m.toInt ≤ n)) ∧
      ∀ x other, LimitIs ⟨1, greatest⟩ 0 x other →
        binary { c with minSize := x } = .ok { column with type := .binary other greatest } := by
  refine ⟨fun column v h hv => string_admitsLength h hv, fun column h => ?_⟩
  obtain ⟨greatest, least, declared, default, hgreatest, hleast, hdeclared, hdefault, rfl⟩ :=
    binary_eq_ok.mp h
  refine ⟨least, greatest, rfl, fun v hv => ?_, fun x other hx => ?_⟩
  · obtain ⟨n, hn, hfits⟩ := binaryDefault_fits (requiredLimit_eq_ok.mp hgreatest).2 hdefault hv
    refine ⟨n, hn, hfits, ?_⟩
    rw [admitsLength_binary rfl, and_iff_left hfits]
    exact (limit_eq_ok.mp hleast).le_iff
  · exact binary_eq_ok.mpr ⟨greatest, other, declared, default, hgreatest, limit_eq_ok.mpr hx, hdeclared,
      hdefault, rfl⟩

/-- One byte by default in a column whose byte strings have two at least. -/
def brief : ColumnDeclaration :=
  { name := "digest", kind := "binary", minSize := some (.int 2), maxSize := some (.int 4),
    defaultValue := some (.string "0xab") }

/-- What it is accepted as. -/
def briefColumn : Column :=
  ⟨"digest", false, some (.hex "AB"), .binary 2 4, none⟩

theorem default_lengths_brief : brief.binary = .ok briefColumn ∧
    ∃ n, DefaultValue.length? (.hex "AB") = some n ∧ ¬(columnRecord briefColumn).AdmitsLength n := by
  have h : brief.binary = .ok briefColumn := by cbv
  obtain ⟨least, greatest, -, hdefault, -⟩ := (default_lengths brief).2 briefColumn h
  obtain ⟨n, hn, -, hadmits⟩ := hdefault (.hex "AB") rfl
  refine ⟨h, n, hn, fun hfits => ?_⟩
  have htwo : (2 : Int) ≤ n := hadmits.mp hfits _ 2 rfl (by decide : IsSafeInteger 2).int
  cases hn
  exact absurd htwo (by decide)

end ColumnDeclaration

end SchemaCompiler
