import SchemaCompiler.Diagnostic
import SchemaCompiler.Identifier
import SchemaCompiler.Json.Printer
import SchemaCompiler.Schema.Basic

/-!
# Faults

Every way in which a schema document can be at fault, with the kind and the message that a fault is
reported under. A compilation stops at the first fault.
-/

namespace SchemaCompiler

/-- What is wrong with a document. -/
inductive Fault
  -- The document
  | invalidJson
  | documentNotArray
  | databaseCount (found : Nat)
  | malformedDatabase (position : Nat)
  -- Names
  | malformedName (kind : Identifier) (name : String)
  | repeatedDatabase (name : String)
  | repeatedTable (name : String)
  | repeatedColumn (name : String)
  -- Databases, tables and indexes
  | unknownDatabaseKind (token : String)
  | repeatedDatabaseKind (kind : DatabaseKind)
  | unsupportedTableKind (token : String)
  | unknownIndexKind (token : String)
  | emptyIndex (token : String)
  | unknownIndexColumn (name : String)
  | repeatedPrimaryIndex
  | reservedTableName (name : String)
  -- Columns of any kind
  | unknownColumnKind (token : String)
  | unresolvedForeignKey (name : String)
  | missingField (field : String)
  | notInteger (field : String) (got : Json)
  | unsafeInteger (field : String) (got : Json.Number)
  | outsideBounds (field : String) (value : Int64) (bounds : Bounds)
  | nestedDefault (got : Json)
  -- Integers
  | missingSize (token : String)
  | unknownSize (token : String)
  | crossedBounds (min max : Int64)
  | autoIncrementDefault
  | nullableSerial
  | serialDefault
  | serialBounds
  | signedTimestampDefault
  | timestampDefault (got : Int64)
  -- Strings and bytes
  | stringDefault (got : Json)
  | emptyDefaultTooShort (minLength : Int64)
  | binaryDefault (got : Json)
  | binaryDefaultTooLong (size : Nat) (maxSize : Int64)
  -- Codes
  | noCodeValues
  | repeatedCode (code : Int64)
  | repeatedCodeName (name : String)
  | unknownDefaultCode (code : Int64)
  -- References
  | missingReferencePath
  | malformedReferencePath (path : String)
  | unknownDatabase (segment : String)
  | unknownTable (table database : String)
  | unknownColumn (column table : String)
  | referenceCycle (through : Location)
  | nullableTarget (path : String)
  | unsuitableTarget (path : String) (kind : ColumnKind)
  | unknownOnDelete (text : String)
  | setNullWithoutNullable
deriving Repr

namespace Fault

/-- The kind that a fault is reported under. -/
def kind : Fault → ErrorKind
  | .invalidJson | .documentNotArray | .databaseCount _ | .malformedDatabase _
  | .repeatedDatabaseKind _ | .emptyIndex _ | .repeatedPrimaryIndex | .reservedTableName _
  | .missingField _ | .nestedDefault _ | .noCodeValues | .missingReferencePath => .structural
  | .malformedName .. | .repeatedDatabase _ | .repeatedTable _ | .repeatedColumn _ => .name
  | .unknownDatabaseKind _ | .unsupportedTableKind _ | .unknownIndexKind _ | .unknownColumnKind _
  | .unresolvedForeignKey _ | .notInteger .. | .missingSize _ | .unknownSize _
  | .autoIncrementDefault | .nullableSerial | .serialDefault | .serialBounds
  | .signedTimestampDefault | .stringDefault _ | .binaryDefault _ | .unsuitableTarget ..
  | .unknownOnDelete _ | .setNullWithoutNullable => .type
  | .unsafeInteger .. | .outsideBounds .. | .crossedBounds .. | .timestampDefault _
  | .emptyDefaultTooShort _ | .binaryDefaultTooLong .. => .range
  | .unknownIndexColumn _ | .repeatedCode _ | .repeatedCodeName _ | .unknownDefaultCode _
  | .malformedReferencePath _ | .unknownDatabase _ | .unknownTable .. | .unknownColumn ..
  | .referenceCycle _ | .nullableTarget _ => .reference

/-- A word between single quotes. -/
def named (name : String) : String :=
  "'" ++ name ++ "'"

/-- The message that a fault is reported with. -/
def message : Fault → String
  | .invalidJson => "invalid JSON"
  | .documentNotArray => "schema document must be an array of databases"
  | .databaseCount found =>
    "schema document must declare one or two databases, found " ++ toString found
  | .malformedDatabase position => "database #" ++ toString position ++ " is malformed"
  | .malformedName kind name =>
    kind.label ++ " name " ++ named name ++ " does not match " ++ kind.pattern
  | .repeatedDatabase name => "database " ++ named name ++ " declared twice"
  | .repeatedTable name => "table " ++ named name ++ " declared twice"
  | .repeatedColumn name => "column " ++ named name ++ " declared twice"
  | .unknownDatabaseKind token => "unrecognized database type " ++ named token
  | .repeatedDatabaseKind kind => "more than one database of type " ++ named kind.token
  | .unsupportedTableKind token => "table type " ++ named token ++ " is not supported yet"
  | .unknownIndexKind token => "unrecognized index type " ++ named token
  | .emptyIndex token => token ++ " index declares no columns"
  | .unknownIndexColumn name => "index references unknown column " ++ named name
  | .repeatedPrimaryIndex => "more than one primary index"
  | .reservedTableName name =>
    "table name " ++ named name ++ " collides with a reserved descriptor key"
  | .unknownColumnKind token => "unrecognized column type " ++ named token
  | .unresolvedForeignKey name =>
    "FK column " ++ named name ++ " cannot be validated without its databases"
  | .missingField field => "missing required field " ++ field
  | .notInteger field got => field ++ " must be an integer, got " ++ got.compact
  | .unsafeInteger field got =>
    field ++ " " ++ (Json.number got).compact ++ " is not a safe integer"
  | .outsideBounds field value bounds =>
    field ++ " " ++ toString value ++ " outside " ++ bounds.text
  | .nestedDefault got => "defaultValue must be a scalar, got " ++ got.compact
  | .missingSize token => token ++ " column requires a size"
  | .unknownSize token => "unrecognized integer size " ++ named token
  | .crossedBounds min max =>
    "minValue " ++ toString min ++ " exceeds maxValue " ++ toString max
  | .autoIncrementDefault => "auto-increment column cannot declare a default"
  | .nullableSerial => "serial column cannot be nullable"
  | .serialDefault => "serial column cannot declare a default"
  | .serialBounds => "serial column bounds are fixed"
  | .signedTimestampDefault => "signed timestamp cannot declare a default"
  | .timestampDefault got => "timestamp default must be 0, got " ++ toString got
  | .stringDefault got => "string default must be the empty literal, got " ++ got.compact
  | .emptyDefaultTooShort minLength =>
    "empty default violates minLength " ++ toString minLength
  | .binaryDefault got =>
    "binary default must be a hex literal or the empty literal, got " ++ got.compact
  | .binaryDefaultTooLong size maxSize =>
    "binary default is " ++ toString size ++ " bytes, maxSize is " ++ toString maxSize
  | .noCodeValues => "code column requires at least one value"
  | .repeatedCode code => "duplicate code " ++ toString code
  | .repeatedCodeName name => "duplicate code name " ++ named name
  | .unknownDefaultCode code => "default " ++ toString code ++ " is not a declared code"
  | .missingReferencePath => "FK column requires a column path"
  | .malformedReferencePath path =>
    "foreign key path " ++ named path ++ " must be [database.]table.column"
  | .unknownDatabase segment => "database " ++ named segment ++ " not found"
  | .unknownTable table database =>
    "table " ++ named table ++ " not found in database " ++ named database
  | .unknownColumn column table =>
    "column " ++ named column ++ " not found in table " ++ named table
  | .referenceCycle through => "foreign key cycle through " ++ through.text
  | .nullableTarget path => "foreign key target " ++ path ++ " is nullable"
  | .unsuitableTarget path kind =>
    "foreign key target " ++ path ++ " must be integer, serial or code, found " ++ kind.token
  | .unknownOnDelete text => "unsupported ondelete action " ++ named text
  | .setNullWithoutNullable => "ON DELETE SET NULL requires a nullable column"

/-- The kind and message of a fault. -/
def notice (f : Fault) : Notice :=
  ⟨f.kind, f.message⟩

end Fault

/-- A fault and its place. -/
abbrev Failure : Type := Located Fault

namespace Failure

/-- What is reported about a failure. -/
def diagnostic (e : Failure) : Diagnostic :=
  e.map Fault.notice

/-- A check whose faults have no place yet. -/
def unplaced {α : Type} (r : Except Fault α) : Except Failure α :=
  r.mapError fun f => { subject := f }

/-- A check whose failures belong to a place unless they already have one. -/
def within {α : Type} (location : Location) (r : Except Failure α) : Except Failure α :=
  r.mapError (·.locate location)

end Failure

end SchemaCompiler
