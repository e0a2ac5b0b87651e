import SchemaCompiler.Declaration.Basic
import SchemaCompiler.Fault
import SchemaCompiler.Text.Split

/-!
# Reference paths

A reference names its target as `table.column` in its own database or as `database.table.column`, where
the first segment is the name of a database or else its type. Of several declarations of one name the
first is meant.
-/

namespace SchemaCompiler

/-- A declared column together with the table and the database that hold it. -/
structure Target where
  database : DatabaseDeclaration
  table : TableDeclaration
  column : ColumnDeclaration
deriving Repr

namespace Target

/-- The place of a target. -/
def location (t : Target) : Location :=
  .ofColumn t.database.name t.table.name t.column.name

/-- The column that two names denote in a database. -/
def find (database : DatabaseDeclaration) (table column : String) : Except Fault Target :=
  match database.table? table with
  | none => .error (.unknownTable table database.name)
  | some t =>
    match t.column? column with
    | none => .error (.unknownColumn column t.name)
    | some c => .ok ⟨database, t, c⟩

end Target

/-- The database of a name, or else of a type. -/
def findDatabase (databases : List DatabaseDeclaration) (segment : String) :
    Except Fault DatabaseDeclaration :=
  match databases.find? (·.name = segment) with
  | some d => .ok d
  | none =>
    match databases.find? (·.kind = segment) with
    | some d => .ok d
    | none => .error (.unknownDatabase segment)

/-- The target of a path that stands in the database `home`. -/
def findTarget (databases : List DatabaseDeclaration) (home : DatabaseDeclaration) (path : String) :
    Except Fault Target :=
  match Text.dotted path with
  | [table, column] => Target.find home table column
  | [database, table, column] => do
    Target.find (← findDatabase databases database) table column
  | _ => .error (.malformedReferencePath path)

end SchemaCompiler
