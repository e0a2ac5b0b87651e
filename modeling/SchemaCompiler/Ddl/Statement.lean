/-!
# Statements of a data definition script

A script is a list of statements, one on each line. Identifiers stand between grave accents, and a grave
accent inside one is written twice; types, literals and actions are written as they are.
-/

namespace SchemaCompiler

namespace Ddl

/-! ## Identifiers -/

/-- The character around identifiers. -/
def accent : Char := '\x60'

/-- One character of a quoted identifier. -/
def doubleAccent (c : Char) : List Char :=
  if c = accent then [accent, accent] else [c]

def quoteIdentifier (name : String) : String :=
  String.ofList (accent :: (name.toList.flatMap doubleAccent ++ [accent]))

def identifierList (names : List String) : String :=
  ", ".intercalate (names.map quoteIdentifier)

/-! ## Clauses -/

structure TypeClause where
  dataType : String
  unsigned : Bool := false
  notNull : Bool := false
  /-- A literal as it is written. -/
  default : Option String := none
  autoIncrement : Bool := false
deriving DecidableEq, Repr

def TypeClause.text (t : TypeClause) : String :=
  t.dataType ++
  (if t.unsigned then " UNSIGNED" else "") ++
  (if t.notNull then " NOT NULL" else "") ++
  (match t.default with
    | some literal => " DEFAULT " ++ literal
    | none => "") ++
  (if t.autoIncrement then " AUTO_INCREMENT" else "")

structure ColumnDefinition where
  name : String
  type : TypeClause
deriving DecidableEq, Repr

def ColumnDefinition.text (c : ColumnDefinition) : String :=
  quoteIdentifier c.name ++ " " ++ c.type.text

/-- An index or a foreign key of a new table. -/
inductive Constraint
  | primaryKey (columns : List String)
  | unique (columns : List String)
  | index (columns : List String)
  /-- The target's database is given where it is not the current one. -/
  | foreignKey (column : String) (database : Option String) (table target onDelete : String)
deriving DecidableEq, Repr

def Constraint.text : Constraint → String
  | .primaryKey columns => "PRIMARY KEY (" ++ identifierList columns ++ ")"
  | .unique columns => "UNIQUE KEY (" ++ identifierList columns ++ ")"
  | .index columns => "INDEX (" ++ identifierList columns ++ ")"
  | .foreignKey column database table target onDelete =>
    "FOREIGN KEY (" ++ quoteIdentifier column ++ ") REFERENCES " ++
    (match database with
      | some database => quoteIdentifier database ++ "."
      | none => "") ++
    quoteIdentifier table ++ " (" ++ quoteIdentifier target ++ ") ON DELETE " ++ onDelete

/-! ## Statements -/

structure CreateTable where
  name : String
  columns : List ColumnDefinition
  constraints : List Constraint
deriving DecidableEq, Repr

def CreateTable.text (t : CreateTable) : String :=
  "CREATE TABLE " ++ quoteIdentifier t.name ++ " (" ++
  ", ".intercalate (t.columns.map (·.text) ++ t.constraints.map (·.text)) ++ ")"

inductive Statement
  | createDatabase (name charset collation : String)
  /-- Makes a database the current one. -/
  | use (name : String)
  | createTable (table : CreateTable)
deriving DecidableEq, Repr

def Statement.text : Statement → String
  | .createDatabase name charset collation =>
    "CREATE DATABASE " ++ quoteIdentifier name ++ " CHARACTER SET " ++ charset ++ " COLLATE " ++
    collation ++ ";"
  | .use name => "USE " ++ quoteIdentifier name ++ ";"
  | .createTable table => table.text ++ ";"

/-- The table that a statement creates. -/
def Statement.table? : Statement → Option CreateTable
  | .createTable table => some table
  | _ => none

structure Script where
  statements : List Statement
deriving DecidableEq, Repr

/-- A script as text, one statement on each line. -/
def Script.text (s : Script) : String :=
  String.join (s.statements.map fun statement => statement.text ++ "\n")

def Script.tables (s : Script) : List CreateTable :=
  s.statements.filterMap Statement.table?

end Ddl

end SchemaCompiler
