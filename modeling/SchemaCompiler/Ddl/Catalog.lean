import SchemaCompiler.Ddl.Statement

/-!
# What scripts create

A script is run statement by statement. A table is created in the database that is current at that point,
and a foreign key that names no database means that one.
-/

namespace SchemaCompiler

namespace Ddl

/-- A table together with the database that was current when it was created. -/
structure Creation where
  database : String
  table : CreateTable
deriving DecidableEq, Repr

/-- The tables that statements create, in order. Nothing is created while no database is current. -/
def creations : Option String → List Statement → List Creation
  | _, [] => []
  | current, .createDatabase .. :: rest => creations current rest
  | _, .use name :: rest => creations (some name) rest
  | none, .createTable _ :: rest => creations none rest
  | some database, .createTable table :: rest => ⟨database, table⟩ :: creations (some database) rest

/-- The tables that a script creates. -/
def Script.creations (s : Script) : List Creation :=
  Ddl.creations none s.statements

namespace Constraint

def isForeignKey : Constraint → Bool
  | .foreignKey .. => true
  | _ => false

def isPrimaryKey : Constraint → Bool
  | .primaryKey _ => true
  | _ => false

end Constraint

/-! ## References -/

namespace CreateTable

/-- The only column of a name that a table defines. -/
def Defines (t : CreateTable) (name : String) (c : ColumnDefinition) : Prop :=
  t.columns.filter (·.name = name) = [c]

end CreateTable

/-- The only column that a foreign key denotes among created tables, read in a current database. -/
def Denotes (created : List Creation) (current : String) (database : Option String)
    (table column : String) (c : ColumnDefinition) : Prop :=
  ∃ creation, created.filter (fun x => x.database = database.getD current ∧ x.table.name = table) =
    [creation] ∧ creation.table.Defines column c

/-- The name of a table with that of its database. -/
structure TableName where
  database : String
  table : String
deriving DecidableEq, Repr

/-- The table that a foreign key refers to while some database is current. -/
def Constraint.target? (current : String) : Constraint → Option TableName
  | .foreignKey _ database table _ _ => some ⟨database.getD current, table⟩
  | _ => none

namespace Creation

def tableName (x : Creation) : TableName :=
  ⟨x.database, x.table.name⟩

/-- The tables that the foreign keys of a created table refer to. -/
def targets (x : Creation) : List TableName :=
  x.table.constraints.filterMap (·.target? x.database)

end Creation

/-- Every foreign key refers to a table that an earlier statement created, or to the one that is being
created. -/
def Supported (created : List Creation) : Prop :=
  ∀ before x after, created = before ++ x :: after →
    ∀ target ∈ x.targets, target ∈ (before ++ [x]).map (·.tableName)

/-- What a constraint of a table needs of the table and of those around it. -/
inductive Constraint.Holds (created : List Creation) (holder : Creation) : Constraint → Prop where
  | primaryKey {columns : List String}
      (defined : ∀ name ∈ columns, ∃ c ∈ holder.table.columns, c.name = name) :
      Holds created holder (.primaryKey columns)
  | unique {columns : List String}
      (defined : ∀ name ∈ columns, ∃ c ∈ holder.table.columns, c.name = name) :
      Holds created holder (.unique columns)
  | index {columns : List String}
      (defined : ∀ name ∈ columns, ∃ c ∈ holder.table.columns, c.name = name) :
      Holds created holder (.index columns)
  | foreignKey {column : String} {database : Option String} {table target onDelete : String}
      {own other : ColumnDefinition} (defines : holder.table.Defines column own)
      (denotes : Denotes created holder.database database table target other)
      (notNull : other.type.notNull) (dataType : other.type.dataType = own.type.dataType)
      (unsigned : other.type.unsigned = own.type.unsigned) :
      Holds created holder (.foreignKey column database table target onDelete)

end Ddl

end SchemaCompiler
