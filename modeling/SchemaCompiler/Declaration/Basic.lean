import SchemaCompiler.Json.Basic

/-!
# Declarations

A schema document declares one or two databases. Declarations hold what the document says and promise
nothing beyond its shape: numbers stay JSON values, so that a value of the wrong type can be told from
one that is out of range.
-/

namespace SchemaCompiler

/-- One enumerated value of a code column. -/
structure CodeDeclaration where
  code : Json
  value : String
deriving Repr

/-- A column of any kind. Which fields matter depends on the kind. -/
structure ColumnDeclaration where
  name : String
  /-- The word for the kind of column. -/
  kind : String
  nullable : Bool := false
  defaultValue : Option Json := none
  size : Option String := none
  unsigned : Bool := false
  autoIncrement : Bool := false
  minValue : Option Json := none
  maxValue : Option Json := none
  minLength : Option Json := none
  maxLength : Option Json := none
  minSize : Option Json := none
  maxSize : Option Json := none
  values : Option (List CodeDeclaration) := none
  /-- The dotted path to the column that this one refers to. -/
  path : Option String := none
  onDelete : Option String := none
deriving Repr

/-- An index over columns of its table. -/
structure IndexDeclaration where
  kind : String
  columns : List String := []
deriving Repr, DecidableEq

/-- The kind that a table has where none is declared, and the one kind that is supported. -/
def TableDeclaration.fixedKind : String := "fixed"

/-- A table. -/
structure TableDeclaration where
  name : String
  kind : String := TableDeclaration.fixedKind
  columns : List ColumnDeclaration := []
  indexes : List IndexDeclaration := []
deriving Repr

/-- A database. -/
structure DatabaseDeclaration where
  name : String
  kind : String
  tables : List TableDeclaration := []
deriving Repr

/-- The default of a column, where null counts as none. -/
def ColumnDeclaration.declaredDefault? (c : ColumnDeclaration) : Option Json :=
  match c.defaultValue with
  | none | some .null => none
  | some v => some v

/-- The first column of a name. -/
def TableDeclaration.column? (t : TableDeclaration) (name : String) : Option ColumnDeclaration :=
  t.columns.find? (·.name = name)

/-- The first table of a name. -/
def DatabaseDeclaration.table? (d : DatabaseDeclaration) (name : String) : Option TableDeclaration :=
  d.tables.find? (·.name = name)

/-- A schema document. -/
structure Document where
  databases : List DatabaseDeclaration
deriving Repr

namespace Document

/-- Whether a document may declare so many databases. -/
def admitsCount (count : Nat) : Bool :=
  1 ≤ count && count ≤ 2

end Document

end SchemaCompiler
