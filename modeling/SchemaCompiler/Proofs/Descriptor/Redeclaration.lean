import SchemaCompiler.Descriptor.Redeclaration
import SchemaCompiler.Proofs.Artifact.Columns
import SchemaCompiler.Proofs.Column.Redeclaration

/-! # The record of a column loses nothing

A record shows the declaration that its column stands for, whatever the column. Where a rule made the
column, this declaration makes it again, so that no two such columns have one record. -/

namespace SchemaCompiler

namespace Descriptor

/-! ## Scalars -/

@[simp] theorem scalar?_bool (b : Bool) : (bool b).scalar? = some (.bool b) := rfl

@[simp] theorem scalar?_int (n : Int64) : (int n).scalar? = some (.int n) := rfl

@[simp] theorem scalar?_string (s : String) : (string s).scalar? = some (.string s) := rfl

@[simp] theorem text?_string (s : String) : (Scalar.string s).text? = some s := rfl

@[simp] theorem toJson_int (n : Int64) : (Scalar.int n).toJson = .int n := rfl

theorem toJson_defaultScalar (v : DefaultValue) : (defaultScalar v).toJson = v.toJson := by
  cases v <;> rfl

/-! ## Fields of a record -/

variable (c : Column)

@[simp] theorem name_columnRecord : (columnRecord c).name = c.name := rfl

@[simp] theorem kind_columnRecord : (columnRecord c).kind = c.type.kind.token := rfl

@[simp] theorem scalar?_nullable : (columnRecord c).scalar? "nullable" = some (.bool c.nullable) := rfl

theorem json?_defaultValue : (columnRecord c).json? "defaultValue" = c.default.map (·.toJson) := by
  rw [ColumnRecord.json?, ColumnRecord.scalar?, field?_defaultValue]
  cases c.default with
  | none => rfl
  | some v => exact congrArg some (toJson_defaultScalar v)

theorem scalar?_typeFields {key : String} (h : key ∈ typeKeys) :
    (columnRecord c).scalar? key = ((typeFields c.type).lookup key).bind Field.scalar? := by
  rw [ColumnRecord.scalar?, field?_typeFields c h]

theorem scalar?_boundsFields {key : String} (h : key ∈ ["minValue", "maxValue"]) :
    (columnRecord c).scalar? key = ((boundsFields c).lookup key).bind Field.scalar? := by
  rw [ColumnRecord.scalar?, field?_boundsFields c h]

theorem values?_columnRecord {domain : CodeDomain} (h : c.type = .code domain) :
    (columnRecord c).values? = some (domain.values.map (·.redeclared)) := by
  have hpart : (["nameToCode", "codeToName", "codes"], codeFields c) ∈ parts c := by simp [parts]
  have hfield : (columnRecord c).field? "nameToCode" =
      some (.lookup (domain.values.map fun v => (v.name, .int (v.code : Nat)))) := by
    rw [field?_of_part c hpart (by simp), codeFields, Column.codeDomain?, h]
    rfl
  rw [ColumnRecord.values?, hfield]
  simp [CodeValue.redeclared]

/-- A record shows the declaration that its column stands for. -/
theorem declaration_columnRecord : (columnRecord c).declaration = c.redeclared := by
  have htype : ∀ key ∈ typeKeys, (columnRecord c).scalar? key =
      ((typeFields c.type).lookup key).bind Field.scalar? := fun _ => scalar?_typeFields c
  simp only [typeKeys, List.forall_mem_cons] at htype
  obtain ⟨hsize, hunsigned, hautoIncrement, hminLength, hmaxLength, hminSize, hmaxSize, -⟩ := htype
  rw [ColumnRecord.declaration, json?_defaultValue]
  simp only [ColumnRecord.text?, ColumnRecord.flag, ColumnRecord.json?, hsize, hunsigned, hautoIncrement,
    hminLength, hmaxLength, hminSize, hmaxSize]
  clear hsize hunsigned hautoIncrement hminLength hmaxLength hminSize hmaxSize
  -- what is left to look up are fields of a type that is known
  obtain ⟨name, nullable, default, type, foreignKey⟩ := c
  cases type with
  | integer =>
      simp [scalar?_boundsFields, boundsFields, Column.bounds?, ColumnType.bounds?, Column.redeclared,
        typeFields, List.lookup, ColumnType.kind, ColumnKind.token]
  | serial | timestamp | boolean | binary =>
      simp [Column.redeclared, typeFields, List.lookup, ColumnType.kind, ColumnKind.token]
  | string minLength =>
      cases minLength <;>
        simp [Column.redeclared, typeFields, List.lookup, ColumnType.kind, ColumnKind.token]
  | code =>
      simp [values?_columnRecord, Column.redeclared, typeFields, ColumnType.kind, ColumnKind.token]

end Descriptor

/-! ## Columns that a rule made -/

open Descriptor

theorem ColumnDeclaration.validate_declaration {d : ColumnDeclaration} {c : Column}
    (h : d.validate = .ok c) : (columnRecord c).declaration.validate = .ok c := by
  obtain ⟨kind, -, hrule⟩ := validate_eq_ok.mp h
  rw [declaration_columnRecord]
  exact Column.validate_redeclared (rule_inOrder hrule) (rule_isValid hrule) (rule_outline hrule).foreignKey

/-- The record of an accepted column is a declaration that is accepted as this column, so that no other
accepted column has the same record. -/
theorem ColumnDeclaration.validate_columnRecord {d : ColumnDeclaration} {c : Column}
    (h : d.validate = .ok c) : (columnRecord c).declaration.validate = .ok c ∧
      ∀ d' c', validate d' = .ok c' → columnRecord c' = columnRecord c → c' = c := by
  have hback := validate_declaration h
  refine ⟨hback, fun d' c' h' hsame => ?_⟩
  have hback' := validate_declaration h'
  rw [hsame] at hback'
  exact Except.ok.inj (hback'.symm.trans hback)

/-- A declaration whose default is not spelled as its record spells it. -/
def ColumnDeclaration.fingerprint : ColumnDeclaration :=
  { name := "digest", kind := "binary", maxSize := some (.int 2), minSize := some (.int 2),
    defaultValue := some (.string "x'00fF'") }

theorem ColumnDeclaration.validate_columnRecord_fingerprint :
    fingerprint.validate = .ok Schema.Stocked.digest ∧
      (columnRecord Schema.Stocked.digest).declaration =
        { fingerprint with defaultValue := some (.string "X'00FF'") } ∧
      (columnRecord Schema.Stocked.digest).declaration.validate = .ok Schema.Stocked.digest ∧
      ∀ d' c', validate d' = .ok c' →
        columnRecord c' = columnRecord Schema.Stocked.digest → c' = Schema.Stocked.digest := by
  have h : fingerprint.validate = .ok Schema.Stocked.digest := by cbv
  exact ⟨h, by cbv, validate_columnRecord h⟩

end SchemaCompiler
