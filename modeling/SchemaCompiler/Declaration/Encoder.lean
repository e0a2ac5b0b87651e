import SchemaCompiler.Declaration.Basic
import SchemaCompiler.Json.Record
import SchemaCompiler.Json.Printer

/-!
# Writing declarations

Every declaration is written as an object with its fields in order. An absent optional field is left
out; a field with a default is always written.
-/

namespace SchemaCompiler

def CodeDeclaration.members (c : CodeDeclaration) : List (String × Json) :=
  [("code", c.code), ("value", .string c.value)]

def CodeDeclaration.encode (c : CodeDeclaration) : Json :=
  .object c.members

def ColumnDeclaration.members (c : ColumnDeclaration) : List (String × Json) :=
  [("name", .string c.name), ("type", .string c.kind), ("nullable", .bool c.nullable)] ++
    Json.optionalMember "defaultValue" id c.defaultValue ++
    Json.optionalMember "size" .string c.size ++
    [("unsigned", .bool c.unsigned), ("autoIncrement", .bool c.autoIncrement)] ++
    Json.optionalMember "minValue" id c.minValue ++
    Json.optionalMember "maxValue" id c.maxValue ++
    Json.optionalMember "minLength" id c.minLength ++
    Json.optionalMember "maxLength" id c.maxLength ++
    Json.optionalMember "minSize" id c.minSize ++
    Json.optionalMember "maxSize" id c.maxSize ++
    Json.optionalMember "values" (Json.ofList CodeDeclaration.encode) c.values ++
    Json.optionalMember "column" .string c.path ++
    Json.optionalMember "ondelete" .string c.onDelete

def ColumnDeclaration.encode (c : ColumnDeclaration) : Json :=
  .object c.members

def IndexDeclaration.members (i : IndexDeclaration) : List (String × Json) :=
  [("type", .string i.kind), ("columns", Json.ofList .string i.columns)]

def IndexDeclaration.encode (i : IndexDeclaration) : Json :=
  .object i.members

def TableDeclaration.members (t : TableDeclaration) : List (String × Json) :=
  [("name", .string t.name), ("type", .string t.kind),
    ("columns", Json.ofList ColumnDeclaration.encode t.columns),
    ("indexes", Json.ofList IndexDeclaration.encode t.indexes)]

def TableDeclaration.encode (t : TableDeclaration) : Json :=
  .object t.members

def DatabaseDeclaration.members (d : DatabaseDeclaration) : List (String × Json) :=
  [("name", .string d.name), ("type", .string d.kind),
    ("tables", Json.ofList TableDeclaration.encode d.tables)]

def DatabaseDeclaration.encode (d : DatabaseDeclaration) : Json :=
  .object d.members

namespace Document

def encode (d : Document) : Json :=
  Json.ofList DatabaseDeclaration.encode d.databases

/-- The document as JSON text. -/
def text (d : Document) : String :=
  d.encode.compact

end Document

end SchemaCompiler
