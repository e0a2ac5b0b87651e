import SchemaCompiler.Column.Binary
import SchemaCompiler.Column.SafeInteger
import SchemaCompiler.Declaration.Basic
import SchemaCompiler.Json.Record

/-!
# Validation of columns

One rule for each kind of column. A rule reads a declaration and gives the column, or the first fault
in the order in which the rule looks at the fields.
-/

namespace SchemaCompiler

namespace ColumnDeclaration

/-! ## Fields -/

/-- The declared default, which has to be a scalar. -/
def scalarDefault (c : ColumnDeclaration) : Except Fault (Option Json) :=
  match c.declaredDefault? with
  | some (.object members) => .error (.nestedDefault (.object members))
  | some (.array items) => .error (.nestedDefault (.array items))
  | other => .ok other

/-- The declared size, which has to be present and known. -/
def requiredSize (c : ColumnDeclaration) : Except Fault IntegerSize :=
  match c.size with
  | none => .error (.missingSize c.kind)
  | some token =>
    match IntegerSize.ofToken? token with
    | none => .error (.unknownSize token)
    | some size => .ok size

/-- A limit within bounds, and another value where none is declared. -/
def limit (field : String) (bounds : Bounds) (absent : Int64) : Option Json → Except Fault Int64
  | none => .ok absent
  | some v => safeIntegerWithin bounds field v

/-- A limit that may be absent. -/
def optionalLimit (field : String) (bounds : Bounds) :
    Option Json → Except Fault (Option Int64)
  | none => .ok none
  | some v => do return some (← safeIntegerWithin bounds field v)

/-- A limit that has to be present and positive. -/
def requiredLimit (field : String) : Option Json → Except Fault Int64
  | none => .error (.missingField field)
  | some v => positiveInteger field v

/-- A default within bounds. -/
def integerDefault (bounds : Bounds) : Option Json → Except Fault (Option DefaultValue)
  | none => .ok none
  | some v => do return some (.integer (← safeIntegerWithin bounds "defaultValue" v))

/-- Whether a value is a spelling of the empty literal. -/
def isEmptyLiteral (v : Json) : Bool :=
  match v with
  | .string s => ByteLiteral.isEmpty s
  | _ => false

/-! ## Rules -/

/-- An integer's bounds default to those of its size; a generated number starts at one, and it takes no
default. -/
def integer (c : ColumnDeclaration) : Except Fault Column := do
  let size ← c.requiredSize
  let absolute := size.bounds c.unsigned
  let min ← limit "minValue" absolute (if c.autoIncrement then 1 else absolute.min) c.minValue
  let max ← limit "maxValue" absolute absolute.max c.maxValue
  if max < min then throw (.crossedBounds min max)
  let bounds : Bounds := ⟨min, max⟩
  let declared ← c.scalarDefault
  if c.autoIncrement ∧ declared.isSome then throw .autoIncrementDefault
  let default ← integerDefault bounds declared
  return ⟨c.name, c.nullable, default, .integer size c.unsigned c.autoIncrement bounds, none⟩

/-- A serial column numbers its rows from one up to the unsigned maximum of its size, and declares
neither a default nor limits. -/
def serial (c : ColumnDeclaration) : Except Fault Column := do
  let size ← c.requiredSize
  if c.nullable then throw .nullableSerial
  if (← c.scalarDefault).isSome then throw .serialDefault
  if c.minValue.isSome ∨ c.maxValue.isSome then throw .serialBounds
  return ⟨c.name, false, none, .serial size ⟨1, (size.bounds true).max⟩, none⟩

/-- The default of a timestamp: zero, and only where the timestamp is unsigned. -/
def timestampDefault (unsigned : Bool) : Option Json → Except Fault (Option DefaultValue)
  | none => .ok none
  | some v => do
    if !unsigned then throw .signedTimestampDefault
    let n ← safeInteger "defaultValue" v
    if n = 0 then return some (.integer 0) else throw (.timestampDefault n)

def timestamp (c : ColumnDeclaration) : Except Fault Column := do
  let default ← timestampDefault c.unsigned (← c.scalarDefault)
  return ⟨c.name, c.nullable, default,
    .timestamp c.unsigned (IntegerSize.big.bounds c.unsigned), none⟩

/-- The default of a string: the empty literal, and only without a least length. -/
def stringDefault (minLength : Option Int64) : Option Json → Except Fault (Option DefaultValue)
  | none => .ok none
  | some v =>
    if isEmptyLiteral v then
      match minLength with
      | some least => .error (.emptyDefaultTooShort least)
      | none => .ok (some .empty)
    else
      .error (.stringDefault v)

def string (c : ColumnDeclaration) : Except Fault Column := do
  let maxLength ← requiredLimit "maxLength" c.maxLength
  let minLength ← optionalLimit "minLength" ⟨1, maxLength⟩ c.minLength
  let default ← stringDefault minLength (← c.scalarDefault)
  return ⟨c.name, c.nullable, default, .string minLength maxLength, none⟩

/-- The bytes that a declared default stands for. -/
def byteDigits? (v : Json) : Option String :=
  match v with
  | .string s => if ByteLiteral.isEmpty s then some "" else ByteLiteral.digits? s
  | _ => none

/-- The default of a binary column: at most so many bytes. -/
def binaryDefault (maxSize : Int64) : Option Json → Except Fault (Option DefaultValue)
  | none => .ok none
  | some v =>
    match byteDigits? v with
    | none => .error (.binaryDefault v)
    | some digits =>
      if maxSize.toInt < ByteLiteral.size digits then
        .error (.binaryDefaultTooLong (ByteLiteral.size digits) maxSize)
      else if digits = "" then .ok (some .empty)
      else .ok (some (.hex digits))

def binary (c : ColumnDeclaration) : Except Fault Column := do
  let maxSize ← requiredLimit "maxSize" c.maxSize
  let minSize ← limit "minSize" ⟨1, maxSize⟩ 0 c.minSize
  let default ← binaryDefault maxSize (← c.scalarDefault)
  return ⟨c.name, c.nullable, default, .binary minSize maxSize, none⟩

def boolean (c : ColumnDeclaration) : Except Fault Column := do
  let default ← integerDefault ⟨0, 1⟩ (← c.scalarDefault)
  return ⟨c.name, c.nullable, default, .boolean, none⟩

/-- One enumerated value, which may repeat neither a code nor a name of those before it. -/
def codeValue (before : List CodeValue) (d : CodeDeclaration) : Except Fault CodeValue := do
  let n ← safeIntegerWithin ⟨0, maxCode⟩ "code" d.code
  if !Identifier.code.accepts d.value then throw (.malformedName .code d.value)
  let code : Fin 256 := ⟨n.toNatClampNeg % 256, Nat.mod_lt _ (by decide)⟩
  if before.any (·.code = code) then throw (.repeatedCode n)
  if before.any (·.name = d.value) then throw (.repeatedCodeName d.value)
  return ⟨code, d.value⟩

/-- The enumerated values behind those already read. -/
def codeValues (before : List CodeValue) : List CodeDeclaration → Except Fault (List CodeValue)
  | [] => .ok before
  | d :: rest => do
    let v ← codeValue before d
    codeValues (before ++ [v]) rest

/-- The default of a code column: one of its codes. -/
def codeDefault (domain : CodeDomain) : Option Json → Except Fault (Option DefaultValue)
  | none => .ok none
  | some v => do
    let n ← safeInteger "defaultValue" v
    if domain.contains n then return some (.integer n) else throw (.unknownDefaultCode n)

def code (c : ColumnDeclaration) : Except Fault Column := do
  let declared := c.values.getD []
  if declared.isEmpty then throw .noCodeValues
  let domain : CodeDomain := ⟨← codeValues [] declared⟩
  let default ← codeDefault domain (← c.scalarDefault)
  return ⟨c.name, c.nullable, default, .code domain, none⟩

/-! ## Any kind -/

/-- The rule of a kind. A reference needs the document around it and has no rule here. -/
def rule : ColumnKind → ColumnDeclaration → Except Fault Column
  | .integer, c => c.integer
  | .serial, c => c.serial
  | .timestamp, c => c.timestamp
  | .string, c => c.string
  | .binary, c => c.binary
  | .boolean, c => c.boolean
  | .code, c => c.code
  | .foreignKey, c => .error (.unresolvedForeignKey c.name)

/-- The declared kind, which has to be known. -/
def knownKind (c : ColumnDeclaration) : Except Fault ColumnKind :=
  match ColumnKind.ofToken? c.kind with
  | none => .error (.unknownColumnKind c.kind)
  | some kind => .ok kind

/-- A column that is declared directly. -/
def validate (c : ColumnDeclaration) : Except Fault Column := do
  rule (← c.knownKind) c

end ColumnDeclaration

end SchemaCompiler
