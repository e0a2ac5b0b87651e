/-!
# Identifiers

The pattern that each kind of declared name has to match, and the pattern of a schema document's own
name. The patterns admit ASCII only.
-/

namespace SchemaCompiler

/-! ## Character classes -/

namespace Identifier

def isLower (c : Char) : Bool := 'a' ≤ c && c ≤ 'z'

def isUpper (c : Char) : Bool := 'A' ≤ c && c ≤ 'Z'

def isDigit (c : Char) : Bool := '0' ≤ c && c ≤ '9'

end Identifier

/-! ## Names in a document -/

/-- The kinds of names in a schema document that a pattern governs. -/
inductive Identifier
  | database
  | table
  | column
  | code
deriving DecidableEq, Repr

namespace Identifier

/-- The word for the kind of name. -/
def label : Identifier → String
  | .database => "database"
  | .table => "table"
  | .column => "column"
  | .code => "code"

/-- The pattern as a regular expression. -/
def pattern : Identifier → String
  | .database => "^[a-z_][a-z0-9_]*$"
  | .table => "^[a-z_]+$"
  | .column => "^[a-z][a-zA-Z0-9]+$"
  | .code => "^[A-Z0-9_]+$"

/-- Whether a character may stand first in a name. -/
def startsWith : Identifier → Char → Bool
  | .database, c => isLower c || c = '_'
  | .table, c => isLower c || c = '_'
  | .column, c => isLower c
  | .code, c => isUpper c || isDigit c || c = '_'

/-- Whether a character may stand behind the first one. -/
def continuesWith : Identifier → Char → Bool
  | .database, c => isLower c || isDigit c || c = '_'
  | .table, c => isLower c || c = '_'
  | .column, c => isLower c || isUpper c || isDigit c
  | .code, c => isUpper c || isDigit c || c = '_'

/-- The least number of characters behind the first one. -/
def leastTail : Identifier → Nat
  | .column => 1
  | _ => 0

/-- Whether a name matches the pattern of its kind. -/
def accepts (kind : Identifier) (name : String) : Bool :=
  match name.toList with
  | [] => false
  | c :: rest =>
    kind.startsWith c && rest.all kind.continuesWith && decide (kind.leastTail ≤ rest.length)

end Identifier

/-! ## Names of documents -/

/-- The greatest length of a schema name. -/
def maxSchemaName : Nat := 100

/-- Whether a name is one that a schema document may be stored under: one to a hundred lower-case
letters, digits, hyphens, underscores and dots. -/
def isSchemaName (name : String) : Bool :=
  let characters := name.toList
  decide (1 ≤ characters.length) && decide (characters.length ≤ maxSchemaName) &&
    characters.all fun c =>
      Identifier.isLower c || Identifier.isDigit c || c = '-' || c = '_' || c = '.'

end SchemaCompiler
