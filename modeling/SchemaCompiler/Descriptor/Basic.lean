import SchemaCompiler.Word64

/-!
# Descriptor records

A descriptor describes the databases of a schema to programs. Its records are flat: a field of a column
is a scalar, the reference to the owning table, or one level of scalars.
-/

namespace SchemaCompiler

namespace Descriptor

inductive Scalar
  | bool (b : Bool)
  | int (n : Int64)
  | string (s : String)
deriving DecidableEq, Repr

/-- The value of a column's field. -/
inductive Field
  | scalar (s : Scalar)
  /-- The table that owns the column. -/
  | table
  /-- Scalars under keys, in order. -/
  | lookup (entries : List (String × Scalar))
  | list (items : List Scalar)
deriving DecidableEq, Repr

/-- A column and its fields in order. -/
structure ColumnRecord where
  name : String
  fields : List (String × Field)
deriving DecidableEq, Repr

structure TableRecord where
  name : String
  columns : List ColumnRecord
deriving DecidableEq, Repr

structure DatabaseRecord where
  /-- The name under which the descriptor exports the database. -/
  namespaceName : String
  name : String
  tables : List TableRecord
deriving DecidableEq, Repr

/-- The field of a key. -/
def ColumnRecord.field? (c : ColumnRecord) (key : String) : Option Field :=
  c.fields.lookup key

/-- The column of a name. -/
def TableRecord.column? (t : TableRecord) (name : String) : Option ColumnRecord :=
  t.columns.find? (·.name = name)

/-- The table of a name. -/
def DatabaseRecord.table? (d : DatabaseRecord) (name : String) : Option TableRecord :=
  d.tables.find? (·.name = name)

end Descriptor

/-- The records of a schema, in declaration order. -/
structure Descriptor where
  databases : List Descriptor.DatabaseRecord
deriving DecidableEq, Repr

/-- The database that is exported under a name. -/
def Descriptor.database? (d : Descriptor) (namespaceName : String) :
    Option Descriptor.DatabaseRecord :=
  d.databases.find? (·.namespaceName = namespaceName)

end SchemaCompiler
