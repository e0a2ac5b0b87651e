import SchemaCompiler.Json.Quoted

/-!
# Module text

The statements that a descriptor module consists of, and their text without any space that is not
needed. Names stand as they are and strings between double quotes.
-/

namespace SchemaCompiler

namespace EsModule

inductive Key
  | name (s : String)
  | quoted (s : String)
deriving DecidableEq, Repr

/-- A value that needs no other object. -/
inductive Literal
  | bool (b : Bool)
  | int (n : Int)
  | string (s : String)
deriving DecidableEq, Repr

inductive Value
  | literal (l : Literal)
  /-- The object that a constant holds. -/
  | constant (name : String)
  | frozenObject (members : List (Key × Literal))
  | frozenArray (items : List Literal)
deriving DecidableEq, Repr

inductive Statement
  /-- A constant that holds a new object. -/
  | declare (name : String) (members : List (Key × Value))
  /-- A constant that holds a new frozen object. -/
  | declareFrozen (name : String) (members : List (Key × Value))
  /-- A new frozen object becomes a property of a constant's object. -/
  | attachFrozen (name property : String) (members : List (Key × Value))
  | freeze (name : String)
  | exportFrozen (members : List (Key × Value))
deriving DecidableEq, Repr

/-! ## Text -/

def Key.text : Key → String
  | .name s => s
  | .quoted s => Json.quote s

def Literal.text : Literal → String
  | .bool b => toString b
  | .int n => toString n
  | .string s => Json.quote s

/-- Members of an object literal with commas between them. -/
def membersText {α : Type} (text : α → String) (members : List (Key × α)) : String :=
  ",".intercalate (members.map fun (key, value) => key.text ++ ":" ++ text value)

def objectText {α : Type} (text : α → String) (members : List (Key × α)) : String :=
  "\x7b" ++ membersText text members ++ "\x7d"

def arrayText (items : List Literal) : String :=
  "[" ++ ",".intercalate (items.map Literal.text) ++ "]"

def freezing (object : String) : String :=
  "Object.freeze(" ++ object ++ ")"

def Value.text : Value → String
  | .literal l => l.text
  | .constant name => name
  | .frozenObject members => freezing (objectText Literal.text members)
  | .frozenArray items => freezing (arrayText items)

def Statement.text : Statement → String
  | .declare name members => "const " ++ name ++ "=" ++ objectText Value.text members ++ ";"
  | .declareFrozen name members =>
    "const " ++ name ++ "=" ++ freezing (objectText Value.text members) ++ ";"
  | .attachFrozen name property members =>
    name ++ "." ++ property ++ "=" ++ freezing (objectText Value.text members) ++ ";"
  | .freeze name => freezing name ++ ";"
  | .exportFrozen members => "export default " ++ freezing (objectText Value.text members) ++ ";"

end EsModule

/-- A module: its statements in order. -/
structure EsModule where
  statements : List EsModule.Statement
deriving DecidableEq, Repr

/-- The text of a module, on one line. -/
def EsModule.text (m : EsModule) : String :=
  String.join (m.statements.map (·.text)) ++ "\n"

end SchemaCompiler
