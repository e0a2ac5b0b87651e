import SchemaCompiler.Declaration.Basic
import SchemaCompiler.Json.Record
import SchemaCompiler.Json.Reader
import SchemaCompiler.Fault

/-!
# Reading declarations

The fields of every declaration in their order, and how each is read. A document is an array of one or
two databases; the first database of the wrong shape is reported with its position, counted from one.
-/

namespace SchemaCompiler

def CodeDeclaration.fields : List String := ["code", "value"]

def CodeDeclaration.decode? (v : Json) : Option CodeDeclaration := do
  let m ← v.members? fields
  return {
    code := ← Json.required m "code" some
    value := ← Json.required m "value" Json.string? }

def ColumnDeclaration.fields : List String :=
  ["name", "type", "nullable", "defaultValue", "size", "unsigned", "autoIncrement", "minValue",
    "maxValue", "minLength", "maxLength", "minSize", "maxSize", "values", "column", "ondelete"]

def ColumnDeclaration.decode? (v : Json) : Option ColumnDeclaration := do
  let m ← v.members? fields
  return {
    name := ← Json.required m "name" Json.string?
    kind := ← Json.required m "type" Json.string?
    nullable := ← Json.defaulted m "nullable" Json.bool? false
    defaultValue := ← Json.optional m "defaultValue" some
    size := ← Json.optional m "size" Json.string?
    unsigned := ← Json.defaulted m "unsigned" Json.bool? false
    autoIncrement := ← Json.defaulted m "autoIncrement" Json.bool? false
    minValue := ← Json.optional m "minValue" some
    maxValue := ← Json.optional m "maxValue" some
    minLength := ← Json.optional m "minLength" some
    maxLength := ← Json.optional m "maxLength" some
    minSize := ← Json.optional m "minSize" some
    maxSize := ← Json.optional m "maxSize" some
    values := ← Json.optional m "values" (Json.list? CodeDeclaration.decode?)
    path := ← Json.optional m "column" Json.string?
    onDelete := ← Json.optional m "ondelete" Json.string? }

def IndexDeclaration.fields : List String := ["type", "columns"]

def IndexDeclaration.decode? (v : Json) : Option IndexDeclaration := do
  let m ← v.members? fields
  return {
    kind := ← Json.required m "type" Json.string?
    columns := ← Json.defaulted m "columns" (Json.list? Json.string?) [] }

def TableDeclaration.fields : List String := ["name", "type", "columns", "indexes"]

def TableDeclaration.decode? (v : Json) : Option TableDeclaration := do
  let m ← v.members? fields
  return {
    name := ← Json.required m "name" Json.string?
    kind := ← Json.defaulted m "type" Json.string? fixedKind
    columns := ← Json.defaulted m "columns" (Json.list? ColumnDeclaration.decode?) []
    indexes := ← Json.defaulted m "indexes" (Json.list? IndexDeclaration.decode?) [] }

def DatabaseDeclaration.fields : List String := ["name", "type", "tables"]

def DatabaseDeclaration.decode? (v : Json) : Option DatabaseDeclaration := do
  let m ← v.members? fields
  return {
    name := ← Json.required m "name" Json.string?
    kind := ← Json.required m "type" Json.string?
    tables := ← Json.defaulted m "tables" (Json.list? TableDeclaration.decode?) [] }

namespace Document

/-- Reads databases of which the first stands at a position. -/
def decodeDatabases (position : Nat) : List Json → Except Failure (List DatabaseDeclaration)
  | [] => .ok []
  | v :: rest =>
    match DatabaseDeclaration.decode? v with
    | none => .error { subject := .malformedDatabase position }
    | some d => do return d :: (← decodeDatabases (position + 1) rest)

/-- Reads a document from a JSON value. -/
def ofJson : Json → Except Failure Document
  | .array items =>
    if admitsCount items.length then do return ⟨← decodeDatabases 1 items⟩
    else .error { subject := .databaseCount items.length }
  | _ => .error { subject := .documentNotArray }

/-- Reads a document from JSON text. -/
def parse [Json.RealReader] (text : String) : Except Failure Document :=
  match Json.parse? text with
  | none => .error { subject := .invalidJson }
  | some v => ofJson v

end Document

end SchemaCompiler
