import SchemaCompiler.Column.Basic

/-!
# Compiled schemas

A compiled schema holds validated databases, tables, columns and indexes in declaration order. Both
emitters read it and nothing else.
-/

namespace SchemaCompiler

inductive DatabaseKind
  /-- The core database that all deployments share. -/
  | core
  /-- The database of one tenant. -/
  | tenant
deriving DecidableEq, Repr

namespace DatabaseKind

def all : List DatabaseKind := [.core, .tenant]

/-- The word for a type of database in a document. -/
def token : DatabaseKind → String
  | .core => "fixed"
  | .tenant => "instance"

def ofToken? (token : String) : Option DatabaseKind :=
  all.find? (·.token = token)

/-- The word for a type of database in emitted artifacts. -/
def namespaceName : DatabaseKind → String
  | .core => "core"
  | .tenant => "inst"

end DatabaseKind

inductive IndexKind
  | primary
  | unique
  | index
deriving DecidableEq, Repr

namespace IndexKind

def all : List IndexKind := [.primary, .unique, .index]

/-- The word for a type of index in a document. -/
def token : IndexKind → String
  | .primary => "primary"
  | .unique => "unique"
  | .index => "index"

def ofToken? (token : String) : Option IndexKind :=
  all.find? (·.token = token)

end IndexKind

namespace Schema

structure Index where
  kind : IndexKind
  columns : List String
deriving DecidableEq, Repr

structure Table where
  name : String
  columns : List Column
  indexes : List Index
deriving DecidableEq, Repr

structure Database where
  name : String
  kind : DatabaseKind
  tables : List Table
deriving DecidableEq, Repr

end Schema

structure Schema where
  databases : List Schema.Database
deriving DecidableEq, Repr

namespace Schema

def Table.column? (t : Table) (name : String) : Option Column :=
  t.columns.find? (·.name = name)

def Database.table? (d : Database) (name : String) : Option Table :=
  d.tables.find? (·.name = name)

def database? (s : Schema) (kind : DatabaseKind) : Option Database :=
  s.databases.find? (·.kind = kind)

end Schema

end SchemaCompiler
