import SchemaCompiler.Word64

/-!
# Columns

A `Column` is what the emitters consume: a name, a type with its limits, whether it may be null, a
default and, for a column declared as a reference, where it points.
-/

namespace SchemaCompiler

/-! ## Limits of numbers -/

/-- The ceiling of 64-bit columns of either signedness. It lies below the true range, so that every
emitted number is exact in a double. -/
def bigIntegerCeiling : Int64 := 99999999999999

/-- The greatest integer up to which doubles hold every integer exactly. -/
def maxSafeInteger : Int64 := 9007199254740991

/-- The highest code that a code column may declare. -/
def maxCode : Int64 := 255

structure Bounds where
  min : Int64
  max : Int64
deriving DecidableEq, Repr

namespace Bounds

def contains (b : Bounds) (n : Int64) : Bool :=
  decide (b.min ≤ n) && decide (n ≤ b.max)

def text (b : Bounds) : String :=
  "[" ++ toString b.min ++ ", " ++ toString b.max ++ "]"

end Bounds

/-! ## Integer sizes -/

inductive IntegerSize
  | tiny
  | small
  | medium
  | regular
  | big
deriving DecidableEq, Repr

namespace IntegerSize

def all : List IntegerSize := [.tiny, .small, .medium, .regular, .big]

/-- The SQL keyword of a size, which declarations use too. -/
def token : IntegerSize → String
  | .tiny => "TINYINT"
  | .small => "SMALLINT"
  | .medium => "MEDIUMINT"
  | .regular => "INT"
  | .big => "BIGINT"

def ofToken? (token : String) : Option IntegerSize :=
  all.find? (·.token = token)

/-- The bounds of a size without further limits. -/
def bounds : IntegerSize → (unsigned : Bool) → Bounds
  | .tiny, true => ⟨0, 255⟩
  | .tiny, false => ⟨-128, 127⟩
  | .small, true => ⟨0, 65535⟩
  | .small, false => ⟨-32768, 32767⟩
  | .medium, true => ⟨0, 16777215⟩
  | .medium, false => ⟨-8388608, 8388607⟩
  | .regular, true => ⟨0, 4294967295⟩
  | .regular, false => ⟨-2147483648, 2147483647⟩
  | .big, true => ⟨0, bigIntegerCeiling⟩
  | .big, false => ⟨-bigIntegerCeiling, bigIntegerCeiling⟩

end IntegerSize

/-! ## Code domains -/

structure CodeValue where
  code : Fin 256
  name : String
deriving DecidableEq, Repr

/-- The enumeration of a code column, in declaration order. -/
structure CodeDomain where
  values : List CodeValue
deriving DecidableEq, Repr

namespace CodeDomain

def codeOf? (d : CodeDomain) (name : String) : Option (Fin 256) :=
  (d.values.find? (·.name = name)).map (·.code)

def nameOf? (d : CodeDomain) (code : Fin 256) : Option String :=
  (d.values.find? (·.code = code)).map (·.name)

def contains (d : CodeDomain) (n : Int64) : Bool :=
  d.values.any fun v => ((v.code : Nat) : Int64) = n

def sortedCodes (d : CodeDomain) : List (Fin 256) :=
  (d.values.map (·.code)).mergeSort (· ≤ ·)

/-- The highest code, zero where there is none. -/
def highest (d : CodeDomain) : Fin 256 :=
  (d.values.map (·.code)).foldl (fun top code => if top ≤ code then code else top) 0

end CodeDomain

/-! ## Kinds of columns -/

/-- The kinds of columns that a document can declare. -/
inductive ColumnKind
  | integer
  | serial
  | timestamp
  | string
  | binary
  | boolean
  | code
  | foreignKey
deriving DecidableEq, Repr

namespace ColumnKind

def all : List ColumnKind :=
  [.integer, .serial, .timestamp, .string, .binary, .boolean, .code, .foreignKey]

/-- The word for a kind in a document. -/
def token : ColumnKind → String
  | .integer => "integer"
  | .serial => "serial"
  | .timestamp => "timestamp"
  | .string => "string"
  | .binary => "binary"
  | .boolean => "boolean"
  | .code => "code"
  | .foreignKey => "FK"

def ofToken? (token : String) : Option ColumnKind :=
  all.find? (·.token = token)

end ColumnKind

/-! ## Column types -/

/-- The type of a column with its limits. -/
inductive ColumnType
  | integer (size : IntegerSize) (unsigned autoIncrement : Bool) (bounds : Bounds)
  | serial (size : IntegerSize) (bounds : Bounds)
  | timestamp (unsigned : Bool) (bounds : Bounds)
  | string (minLength : Option Int64) (maxLength : Int64)
  | binary (minSize maxSize : Int64)
  | boolean
  | code (domain : CodeDomain)
deriving DecidableEq, Repr

namespace ColumnType

/-- The kind of a type; no type is a reference, as references resolve to integers. -/
def kind : ColumnType → ColumnKind
  | .integer .. => .integer
  | .serial .. => .serial
  | .timestamp .. => .timestamp
  | .string .. => .string
  | .binary .. => .binary
  | .boolean => .boolean
  | .code _ => .code

/-- The bounds of the values, where they are numbers. -/
def bounds? : ColumnType → Option Bounds
  | .integer _ _ _ bounds => some bounds
  | .serial _ bounds => some bounds
  | .timestamp _ bounds => some bounds
  | .boolean => some ⟨0, 1⟩
  | .code _ => some (IntegerSize.tiny.bounds true)
  | .string .. => none
  | .binary .. => none

end ColumnType

inductive DefaultValue
  | integer (n : Int64)
  /-- The empty string. -/
  | empty
  /-- A byte string as upper-case hexadecimal digits. -/
  | hex (digits : String)
deriving DecidableEq, Repr

/-! ## References -/

inductive OnDelete
  | cascade
  | setNull
  | restrict
  | noAction
  | setDefault
deriving DecidableEq, Repr

namespace OnDelete

def all : List OnDelete := [.cascade, .setNull, .restrict, .noAction, .setDefault]

def sql : OnDelete → String
  | .cascade => "CASCADE"
  | .setNull => "SET NULL"
  | .restrict => "RESTRICT"
  | .noAction => "NO ACTION"
  | .setDefault => "SET DEFAULT"

end OnDelete

/-- Where a column that refers to another one points. -/
structure ForeignKey where
  /-- The database that holds the target. -/
  database : String
  /-- Whether that is another database than the column's own. -/
  crossDatabase : Bool
  table : String
  column : String
  onDelete : Option OnDelete
deriving DecidableEq, Repr

/-- The action of a reference that the database server is to enforce. -/
def ForeignKey.enforced? (fk : ForeignKey) : Option OnDelete :=
  fk.onDelete.filter (· ≠ .noAction)

structure Column where
  name : String
  nullable : Bool
  default : Option DefaultValue
  type : ColumnType
  /-- Present when the column was declared as a reference. -/
  foreignKey : Option ForeignKey
deriving DecidableEq, Repr

namespace Column

/-- The bounds of the values, where they are numbers. -/
def bounds? (c : Column) : Option Bounds :=
  c.type.bounds?

/-- The enumeration of a code column. -/
def codeDomain? (c : Column) : Option CodeDomain :=
  match c.type with
  | .code domain => some domain
  | _ => none

end Column

end SchemaCompiler
