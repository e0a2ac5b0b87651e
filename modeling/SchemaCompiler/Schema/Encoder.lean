import SchemaCompiler.Json.Record
import SchemaCompiler.Schema.Basic

/-!
# Schemas in JSON

The JSON form of a compiled schema. A column type is an object whose member `type` tells which other
members it has; every optional part is written as null where it is absent.
-/

namespace SchemaCompiler

/-! ## Columns -/

def Bounds.members (b : Bounds) : List (String × Json) :=
  [("min", .int b.min), ("max", .int b.max)]

def Bounds.encode (b : Bounds) : Json :=
  .object b.members

def CodeValue.members (v : CodeValue) : List (String × Json) :=
  [("code", .nat v.code), ("name", .string v.name)]

def CodeValue.encode (v : CodeValue) : Json :=
  .object v.members

def DefaultValue.encode : DefaultValue → Json
  | .integer n => .object [("Integer", .int n)]
  | .empty => .string "Empty"
  | .hex digits => .object [("Hex", .string digits)]

/-- What a column type shows beside its kind. -/
def ColumnType.details : ColumnType → List (String × Json)
  | .integer size unsigned autoIncrement bounds =>
    [("size", .string size.token), ("unsigned", .bool unsigned),
      ("auto_increment", .bool autoIncrement), ("bounds", bounds.encode)]
  | .serial size bounds => [("size", .string size.token), ("bounds", bounds.encode)]
  | .timestamp unsigned bounds => [("unsigned", .bool unsigned), ("bounds", bounds.encode)]
  | .string minLength maxLength =>
    [("min_length", Json.orNull .int minLength), ("max_length", .int maxLength)]
  | .binary minSize maxSize => [("min_size", .int minSize), ("max_size", .int maxSize)]
  | .boolean => []
  | .code domain => [("values", Json.ofList CodeValue.encode domain.values)]

def ColumnType.members (t : ColumnType) : List (String × Json) :=
  ("type", .string t.kind.token) :: t.details

def ColumnType.encode (t : ColumnType) : Json :=
  .object t.members

/-- The name of a delete action in JSON. -/
def OnDelete.name : OnDelete → String
  | .cascade => "Cascade"
  | .setNull => "SetNull"
  | .restrict => "Restrict"
  | .noAction => "NoAction"
  | .setDefault => "SetDefault"

def OnDelete.encode (a : OnDelete) : Json :=
  .string a.name

def ForeignKey.members (fk : ForeignKey) : List (String × Json) :=
  [("database", .string fk.database), ("cross_database", .bool fk.crossDatabase),
    ("table", .string fk.table), ("column", .string fk.column),
    ("on_delete", Json.orNull OnDelete.encode fk.onDelete)]

def ForeignKey.encode (fk : ForeignKey) : Json :=
  .object fk.members

def Column.members (c : Column) : List (String × Json) :=
  [("name", .string c.name), ("nullable", .bool c.nullable),
    ("default", Json.orNull DefaultValue.encode c.default), ("column_type", c.type.encode),
    ("foreign_key", Json.orNull ForeignKey.encode c.foreignKey)]

def Column.encode (c : Column) : Json :=
  .object c.members

/-! ## Tables and databases -/

namespace Schema

def Index.members (i : Index) : List (String × Json) :=
  [("kind", .string i.kind.token), ("columns", Json.ofList .string i.columns)]

def Index.encode (i : Index) : Json :=
  .object i.members

def Table.members (t : Table) : List (String × Json) :=
  [("name", .string t.name), ("columns", Json.ofList Column.encode t.columns),
    ("indexes", Json.ofList Index.encode t.indexes)]

def Table.encode (t : Table) : Json :=
  .object t.members

def Database.members (d : Database) : List (String × Json) :=
  [("name", .string d.name), ("kind", .string d.kind.token),
    ("tables", Json.ofList Table.encode d.tables)]

def Database.encode (d : Database) : Json :=
  .object d.members

def members (s : Schema) : List (String × Json) :=
  [("databases", Json.ofList Database.encode s.databases)]

def encode (s : Schema) : Json :=
  .object s.members

end Schema

end SchemaCompiler
