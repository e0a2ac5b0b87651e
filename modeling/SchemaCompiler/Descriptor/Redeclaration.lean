import SchemaCompiler.Declaration.Basic
import SchemaCompiler.Descriptor.Basic

/-!
# Records as declarations

A record shows the parts of its column under their own keys, so that a declaration can be made of it
again. Only integers declare their bounds; where no least size was declared, the record shows zero.
-/

namespace SchemaCompiler

namespace Descriptor

/-- A scalar as a JSON value. -/
def Scalar.toJson : Scalar → Json
  | .bool b => .bool b
  | .int n => .int n
  | .string s => .string s

/-- The scalar that a field is. -/
def Field.scalar? : Field → Option Scalar
  | .scalar s => some s
  | _ => none

/-- The text that a scalar is. -/
def Scalar.text? : Scalar → Option String
  | .string s => some s
  | _ => none

namespace ColumnRecord

variable (r : ColumnRecord) (key : String)

/-- The scalar of a key. -/
def scalar? : Option Scalar :=
  (r.field? key).bind Field.scalar?

/-- The text of a key. -/
def text? : Option String :=
  (r.scalar? key).bind Scalar.text?

/-- The flag of a key, which is not set where the record does not show it. -/
def flag : Bool :=
  r.scalar? key = some (.bool true)

/-- The scalar of a key as a JSON value. -/
def json? : Option Json :=
  (r.scalar? key).map Scalar.toJson

/-- The enumerated values in the order in which the record lists their names. -/
def values? : Option (List CodeDeclaration) :=
  match r.field? "nameToCode" with
  | some (.lookup entries) => some (entries.map fun (name, code) => ⟨code.toJson, name⟩)
  | _ => none

/-- The word for the kind of column. -/
def kind : String :=
  (r.text? "type").getD ""

/-- The declaration that a record shows. -/
def declaration : ColumnDeclaration :=
  { name := r.name
    kind := r.kind
    nullable := r.flag "nullable"
    defaultValue := r.json? "defaultValue"
    size := r.text? "size"
    unsigned := r.flag "unsigned"
    autoIncrement := r.flag "autoIncrement"
    minValue := if r.kind = "integer" then r.json? "minValue" else none
    maxValue := if r.kind = "integer" then r.json? "maxValue" else none
    minLength := r.json? "minLength"
    maxLength := r.json? "maxLength"
    minSize := if r.scalar? "minSize" = some (.int 0) then none else r.json? "minSize"
    maxSize := r.json? "maxSize"
    values := if r.kind = "code" then r.values? else none }

end ColumnRecord

end Descriptor

end SchemaCompiler
