import SchemaCompiler.Schema.Encoder

/-!
# Schemas from JSON

Reads the JSON form of a compiled schema. Nothing is validated: a schema that was written by other means
may hold any names and numbers.
-/

namespace SchemaCompiler

/-- A word that one of the given values is written as. -/
def Json.word? {α : Type} (all : List α) (token : α → String) (v : Json) : Option α :=
  v.string?.bind fun s => all.find? (token · = s)

/-! ## Columns -/

def Bounds.decode? (v : Json) : Option Bounds := do
  let m ← v.object?
  return { min := ← Json.required m "min" Json.int?, max := ← Json.required m "max" Json.int? }

/-- A number that fits a byte. -/
def codeNumber? (v : Json) : Option (Fin 256) :=
  v.nat?.bind fun n => if h : n < 256 then some ⟨n, h⟩ else none

def CodeValue.decode? (v : Json) : Option CodeValue := do
  let m ← v.object?
  return { code := ← Json.required m "code" codeNumber?
           name := ← Json.required m "name" Json.string? }

def DefaultValue.decode? : Json → Option DefaultValue
  | .string s => if s = "Empty" then some .empty else none
  | .object [(key, v)] =>
    if key = "Integer" then v.int?.map .integer
    else if key = "Hex" then v.string?.map .hex
    else none
  | _ => none

def IntegerSize.decode? : Json → Option IntegerSize :=
  Json.word? all token

def ColumnType.decode? (v : Json) : Option ColumnType := do
  let m ← v.object?
  match ← Json.required m "type" (Json.word? ColumnKind.all ColumnKind.token) with
  | .integer =>
    return .integer (← Json.required m "size" IntegerSize.decode?)
      (← Json.required m "unsigned" Json.bool?) (← Json.required m "auto_increment" Json.bool?)
      (← Json.required m "bounds" Bounds.decode?)
  | .serial =>
    return .serial (← Json.required m "size" IntegerSize.decode?)
      (← Json.required m "bounds" Bounds.decode?)
  | .timestamp =>
    return .timestamp (← Json.required m "unsigned" Json.bool?)
      (← Json.required m "bounds" Bounds.decode?)
  | .string =>
    return .string (← Json.optional m "min_length" Json.int?)
      (← Json.required m "max_length" Json.int?)
  | .binary =>
    return .binary (← Json.required m "min_size" Json.int?) (← Json.required m "max_size" Json.int?)
  | .boolean => return .boolean
  | .code => return .code ⟨← Json.required m "values" (Json.list? CodeValue.decode?)⟩
  | .foreignKey => none

def OnDelete.decode? : Json → Option OnDelete :=
  Json.word? all name

def ForeignKey.decode? (v : Json) : Option ForeignKey := do
  let m ← v.object?
  return {
    database := ← Json.required m "database" Json.string?
    crossDatabase := ← Json.required m "cross_database" Json.bool?
    table := ← Json.required m "table" Json.string?
    column := ← Json.required m "column" Json.string?
    onDelete := ← Json.optional m "on_delete" OnDelete.decode? }

def Column.decode? (v : Json) : Option Column := do
  let m ← v.object?
  return {
    name := ← Json.required m "name" Json.string?
    nullable := ← Json.required m "nullable" Json.bool?
    default := ← Json.optional m "default" DefaultValue.decode?
    type := ← Json.required m "column_type" ColumnType.decode?
    foreignKey := ← Json.optional m "foreign_key" ForeignKey.decode? }

/-! ## Tables and databases -/

namespace Schema

def Index.decode? (v : Json) : Option Index := do
  let m ← v.object?
  return {
    kind := ← Json.required m "kind" (Json.word? IndexKind.all IndexKind.token)
    columns := ← Json.required m "columns" (Json.list? Json.string?) }

def Table.decode? (v : Json) : Option Table := do
  let m ← v.object?
  return {
    name := ← Json.required m "name" Json.string?
    columns := ← Json.required m "columns" (Json.list? Column.decode?)
    indexes := ← Json.required m "indexes" (Json.list? Index.decode?) }

def Database.decode? (v : Json) : Option Database := do
  let m ← v.object?
  return {
    name := ← Json.required m "name" Json.string?
    kind := ← Json.required m "kind" (Json.word? DatabaseKind.all DatabaseKind.token)
    tables := ← Json.required m "tables" (Json.list? Table.decode?) }

def decode? (v : Json) : Option Schema := do
  let m ← v.object?
  return { databases := ← Json.required m "databases" (Json.list? Database.decode?) }

end Schema

end SchemaCompiler
