import SchemaCompiler.Descriptor.Basic
import SchemaCompiler.Fault

/-!
# The descriptor of a schema

Fields follow a fixed order, so that compiling again gives the same bytes. The only schemas without a
descriptor are those with a table that is named like a key which every object has already.
-/

namespace SchemaCompiler

namespace Descriptor

/-! ## Columns -/

def bool (b : Bool) : Field := .scalar (.bool b)

def int (n : Int64) : Field := .scalar (.int n)

def string (s : String) : Field := .scalar (.string s)

/-- A default value as a scalar. -/
def defaultScalar : DefaultValue → Scalar
  | .integer n => .int n
  | .empty => .string ""
  | .hex digits => .string ("X'" ++ digits ++ "'")

/-- The fields that show the default. -/
def defaultFields (c : Column) : List (String × Field) :=
  match c.default with
  | some default => [("defaultValue", .scalar (defaultScalar default))]
  | none => []

/-- The fields that show the declared shape of a type. -/
def typeFields : ColumnType → List (String × Field)
  | .integer size unsigned autoIncrement _ =>
    [("size", string size.token), ("unsigned", bool unsigned),
      ("autoIncrement", bool autoIncrement)]
  | .serial size _ =>
    [("size", string size.token), ("unsigned", bool true), ("autoIncrement", bool true)]
  | .timestamp unsigned _ => [("unsigned", bool unsigned)]
  | .string minLength maxLength =>
    (match minLength with
      | some least => [("minLength", int least)]
      | none => []) ++ [("maxLength", int maxLength)]
  | .binary minSize maxSize => [("minSize", int minSize), ("maxSize", int maxSize)]
  | .boolean | .code _ => []

/-- The fields that show the bounds. -/
def boundsFields (c : Column) : List (String × Field) :=
  match c.bounds? with
  | some bounds => [("minValue", int bounds.min), ("maxValue", int bounds.max)]
  | none => []

/-- The target of a reference as a path of three segments. -/
def referencePath (fk : ForeignKey) : String :=
  fk.database ++ "." ++ fk.table ++ "." ++ fk.column

/-- The field that shows the target of a reference. -/
def referenceFields (c : Column) : List (String × Field) :=
  match c.foreignKey with
  | some fk => [("references", string (referencePath fk))]
  | none => []

/-- The fields that show an enumeration, in both directions and as a sorted list. -/
def codeFields (c : Column) : List (String × Field) :=
  match c.codeDomain? with
  | some domain =>
    let code (n : Fin 256) : Scalar := .int (n : Nat)
    [("nameToCode", .lookup (domain.values.map fun v => (v.name, code v.code))),
      ("codeToName", .lookup (domain.values.map fun v => (toString (v.code : Nat), .string v.name))),
      ("codes", .list (domain.sortedCodes.map code))]
  | none => []

/-- The record of a column. -/
def columnRecord (c : Column) : ColumnRecord :=
  { name := c.name
    fields :=
      [("_table", .table), ("type", string c.type.kind.token), ("nullable", bool c.nullable)] ++
      defaultFields c ++ typeFields c.type ++ boundsFields c ++ referenceFields c ++ codeFields c }

/-! ## Tables and databases -/

/-- The keys that no table may be named by. -/
def reservedTableNames : List String := ["_name", "__proto__"]

/-- The record of a table. -/
def tableRecord (t : Schema.Table) : TableRecord :=
  ⟨t.name, t.columns.map columnRecord⟩

/-- The record of a table of a database, unless its name is reserved. -/
def checkedTableRecord (d : Schema.Database) (t : Schema.Table) : Except Failure TableRecord :=
  if t.name ∈ reservedTableNames then
    .error ⟨.reservedTableName t.name, some (.ofTable d.name t.name)⟩
  else
    .ok (tableRecord t)

/-- The record of a database. -/
def databaseRecord (d : Schema.Database) : Except Failure DatabaseRecord := do
  return ⟨d.kind.namespaceName, d.name, ← d.tables.mapM (checkedTableRecord d)⟩

/-- The descriptor of a schema. -/
def ofSchema (s : Schema) : Except Failure Descriptor := do
  return ⟨← s.databases.mapM databaseRecord⟩

end Descriptor

end SchemaCompiler
