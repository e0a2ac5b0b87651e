import SchemaCompiler.Descriptor.Basic
import SchemaCompiler.EsModule.Basic

/-!
# The module of a descriptor

Every table is a constant, numbered through all databases. Its columns refer back to it, so they are
attached one by one and the table is frozen behind them; the databases and the export follow.
-/

namespace SchemaCompiler

namespace Descriptor

open EsModule

/-- The constant that holds the table of a number. -/
def tableConstant (number : Nat) : String :=
  "t" ++ toString number

/-- The two members that every object starts with. -/
def header (objectType name : String) : List (Key × Value) :=
  [(.name "_objectType", .literal (.string objectType)), (.name "_name", .literal (.string name))]

def Scalar.toLiteral : Scalar → Literal
  | .bool b => .bool b
  | .int n => .int n.toInt
  | .string s => .string s

/-- A field of a column whose table is held by a constant. -/
def Field.toValue (constant : String) : Field → Value
  | .scalar s => .literal s.toLiteral
  | .table => .constant constant
  | .lookup entries => .frozenObject (entries.map fun (key, s) => (.quoted key, s.toLiteral))
  | .list items => .frozenArray (items.map Scalar.toLiteral)

/-- The members of a column's object. -/
def ColumnRecord.members (constant : String) (c : ColumnRecord) : List (Key × Value) :=
  header "column" c.name ++ c.fields.map fun (key, field) => (.name key, field.toValue constant)

/-- The statements that build a table. -/
def TableRecord.statements (constant : String) (t : TableRecord) : List Statement :=
  .declare constant (header "table" t.name) ::
    (t.columns.map fun c => .attachFrozen constant c.name (c.members constant)) ++
    [.freeze constant]

/-- The tables of a database with their constants, of which the first has a number. -/
def DatabaseRecord.constants (first : Nat) (d : DatabaseRecord) : List (String × TableRecord) :=
  (d.tables.zipIdx first).map fun (t, number) => (tableConstant number, t)

/-- The statements that build a database whose first table has a number. -/
def DatabaseRecord.statements (first : Nat) (d : DatabaseRecord) : List Statement :=
  (d.constants first).flatMap (fun (constant, t) => t.statements constant) ++
    [.declareFrozen d.namespaceName
      (header "database" d.name ++
        (d.constants first).map fun (constant, t) => (.name t.name, .constant constant))]

/-- The statements that build databases, of which the first table has a number. -/
def databaseStatements (first : Nat) : List DatabaseRecord → List Statement
  | [] => []
  | d :: rest => d.statements first ++ databaseStatements (first + d.tables.length) rest

/-- The module of a descriptor. -/
def toModule (d : Descriptor) : EsModule :=
  ⟨databaseStatements 0 d.databases ++
    [.exportFrozen (d.databases.map fun r => (.name r.namespaceName, .constant r.namespaceName))]⟩

/-- The text of a descriptor's module. -/
def text (d : Descriptor) : String :=
  d.toModule.text

end Descriptor

end SchemaCompiler
