/-!
# Diagnostics

A diagnostic is what a failed compilation reports: one of five kinds, a message, and where in the
document the offending declaration stands, as far as that is known.
-/

namespace SchemaCompiler

/-! ## Kinds -/

inductive ErrorKind
  /-- A wrong shape, such as a nested value where a scalar is required. -/
  | structural
  /-- A name that fails its pattern or is declared twice. -/
  | name
  /-- An unknown word, or a value of the wrong kind. -/
  | type
  /-- A number outside its bounds. -/
  | range
  /-- A reference to something that is not declared, or one that is ambiguous. -/
  | reference
deriving DecidableEq, Repr

namespace ErrorKind

def all : List ErrorKind := [.structural, .name, .type, .range, .reference]

def code : ErrorKind → String
  | .structural => "STRUCTURAL_ERROR"
  | .name => "NAME_ERROR"
  | .type => "TYPE_ERROR"
  | .range => "RANGE_ERROR"
  | .reference => "REFERENCE_ERROR"

def ofCode? (code : String) : Option ErrorKind :=
  all.find? (·.code = code)

end ErrorKind

/-! ## Places -/

/-- A place in a document: a database, a table of it, or a column of that table. -/
structure Location where
  database : Option String
  table : Option String
  column : Option String
deriving DecidableEq, Repr

namespace Location

def ofDatabase (database : String) : Location :=
  ⟨some database, none, none⟩

def ofTable (database table : String) : Location :=
  ⟨some database, some table, none⟩

def ofColumn (database table column : String) : Location :=
  ⟨some database, some table, some column⟩

/-- The parts that are known, joined by dots. -/
def text (l : Location) : String :=
  ".".intercalate ([l.database, l.table, l.column].filterMap id)

end Location

/-- Something that went wrong, with its place once that is known. -/
structure Located (α : Type) where
  subject : α
  location : Option Location := none
deriving DecidableEq, Repr

namespace Located

variable {α β : Type}

/-- Adds a place unless one is known: whoever is nearest to the fault knows best. -/
def locate (e : Located α) (location : Location) : Located α :=
  match e.location with
  | some _ => e
  | none => { e with location := some location }

/-- Says the same about another subject. -/
def map (f : α → β) (e : Located α) : Located β :=
  ⟨f e.subject, e.location⟩

end Located

/-! ## Messages -/

structure Notice where
  kind : ErrorKind
  message : String
deriving DecidableEq, Repr

abbrev Diagnostic : Type := Located Notice

def Diagnostic.text (d : Diagnostic) : String :=
  let place := match d.location with
    | some location => " in " ++ location.text
    | none => ""
  d.subject.kind.code ++ place ++ ": " ++ d.subject.message

end SchemaCompiler
