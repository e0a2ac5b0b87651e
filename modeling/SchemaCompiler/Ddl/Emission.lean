import SchemaCompiler.Ddl.Statement
import SchemaCompiler.Schema.Basic

/-!
# Scripts of a schema

Each database of a schema has a script that creates it and then its tables in declaration order. The
constraints of a table are its indexes and then the references that the server is to enforce.
-/

namespace SchemaCompiler

namespace Ddl

/-- The character set and the collation of every created database. -/
structure Options where
  charset : String := "utf8mb4"
  collation : String := "utf8mb4_unicode_ci"
deriving DecidableEq, Repr

/-! ## Columns -/

/-- A default value as a literal. -/
def literal : DefaultValue → String
  | .integer n => toString n
  | .empty => "''"
  | .hex digits => "X'" ++ digits ++ "'"

/-- A type with a length. -/
def sized (keyword : String) (length : Int64) : String :=
  keyword ++ "(" ++ toString length ++ ")"

/-- The data type of a column type. -/
def dataType : ColumnType → String
  | .integer size .. => size.token
  | .serial size _ => size.token
  | .timestamp .. => IntegerSize.big.token
  | .string _ maxLength => sized "VARCHAR" maxLength
  | .binary minSize maxSize => sized (if minSize = maxSize then "BINARY" else "VARBINARY") maxSize
  | .boolean | .code _ => IntegerSize.tiny.token

/-- Whether the values of a column type have no sign. -/
def isUnsigned : ColumnType → Bool
  | .integer _ unsigned .. => unsigned
  | .timestamp unsigned _ => unsigned
  | .serial .. | .boolean | .code _ => true
  | .string .. | .binary .. => false

/-- Whether the server numbers the rows of a column. -/
def isNumbered : ColumnType → Bool
  | .integer _ _ autoIncrement _ => autoIncrement
  | .serial .. => true
  | _ => false

/-- The type clause of a column. -/
def typeClause (c : Column) : TypeClause :=
  { dataType := dataType c.type
    unsigned := isUnsigned c.type
    notNull := !c.nullable
    default := c.default.map literal
    autoIncrement := isNumbered c.type }

/-! ## Tables -/

/-- The constraint of an index. -/
def indexConstraint (i : Schema.Index) : Constraint :=
  match i.kind with
  | .primary => .primaryKey i.columns
  | .unique => .unique i.columns
  | .index => .index i.columns

/-- The constraint of a reference that the server is to enforce. -/
def referenceConstraint? (c : Column) : Option Constraint := do
  let fk ← c.foreignKey
  let action ← fk.enforced?
  return .foreignKey c.name (if fk.crossDatabase then some fk.database else none) fk.table fk.column
    action.sql

/-- The statement for a table. -/
def createTable (t : Schema.Table) : CreateTable :=
  { name := t.name
    columns := t.columns.map fun c => ⟨c.name, typeClause c⟩
    constraints := t.indexes.map indexConstraint ++ t.columns.filterMap referenceConstraint? }

/-! ## Databases -/

/-- The script of a database. -/
def script (options : Options) (d : Schema.Database) : Script :=
  ⟨.createDatabase d.name options.charset options.collation :: .use d.name ::
    d.tables.map fun t => .createTable (createTable t)⟩

/-- The script of every database, in declaration order. -/
def scripts (options : Options) (s : Schema) : List (DatabaseKind × Script) :=
  s.databases.map fun d => (d.kind, script options d)

end Ddl

end SchemaCompiler
