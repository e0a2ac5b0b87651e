import SchemaCompiler.Json.Basic

/-!
# Records in JSON

A record with named fields is written as an object, or as an array of its fields in their order. A field
is required, has a default, or is optional; only an optional field may be null. Unknown keys do not
matter, and an array may end early but not run over.
-/

namespace SchemaCompiler

namespace Json

/-! ## Scalars and lists -/

def string? : Json → Option String
  | .string s => some s
  | _ => none

def bool? : Json → Option Bool
  | .bool b => some b
  | _ => none

/-- An integer of 64 bits with a sign. -/
def int? : Json → Option Int64
  | .number n => n.asInt64?
  | _ => none

/-- A natural number of 64 bits. -/
def nat? : Json → Option Nat
  | .number (.unsigned n) => some n.toNat
  | _ => none

/-- An array whose items all decode. -/
def list? {α : Type} (decode : Json → Option α) : Json → Option (List α)
  | .array items => items.mapM decode
  | _ => none

/-! ## Fields -/

/-- The members of a record with the given fields. -/
def members? (fields : List String) : Json → Option (List (String × Json))
  | .object members => some members
  | .array items => if items.length ≤ fields.length then some (fields.zip items) else none
  | _ => none

/-- The members of a record that has to be written as an object. -/
def object? : Json → Option (List (String × Json))
  | .object members => some members
  | _ => none

/-- A field that has to be present. -/
def required {α : Type} (members : List (String × Json)) (key : String)
    (decode : Json → Option α) : Option α :=
  (members.lookup key).bind decode

/-- A field that takes a default where it is absent. -/
def defaulted {α : Type} (members : List (String × Json)) (key : String)
    (decode : Json → Option α) (absent : α) : Option α :=
  match members.lookup key with
  | none => some absent
  | some v => decode v

/-- A field that is absent or null, or decodes. -/
def optional {α : Type} (members : List (String × Json)) (key : String)
    (decode : Json → Option α) : Option (Option α) :=
  match members.lookup key with
  | none | some .null => some none
  | some v => (decode v).map some

/-! ## Writing -/

/-- A member that is left out where there is no value. -/
def optionalMember {α : Type} (key : String) (encode : α → Json) : Option α → List (String × Json)
  | none => []
  | some a => [(key, encode a)]

/-- A value that is null where there is none. -/
def orNull {α : Type} (encode : α → Json) : Option α → Json
  | none => .null
  | some a => encode a

/-- An array of encoded items. -/
def ofList {α : Type} (encode : α → Json) (items : List α) : Json :=
  .array (items.map encode)

end Json

end SchemaCompiler
