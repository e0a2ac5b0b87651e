import SchemaCompiler.Declaration.Decoder
import SchemaCompiler.ForeignKey.Resolution

/-!
# Compilation

A document becomes a schema in one pass that stops at the first fault. First the databases are checked
against each other, then each is compiled: table by table, and within a table its columns before its
indexes.
-/

namespace SchemaCompiler

/-! ## Lists without repetition -/

/-- Compiles every item in order, and refuses an item whose key stands in `seen` or before it. -/
def compileDistinct {α β : Type} (key : α → String) (repeated : α → Failure)
    (step : α → Except Failure β) (seen : List String) : List α → Except Failure (List β)
  | [] => .ok []
  | a :: rest =>
    if key a ∈ seen then .error (repeated a)
    else do
      let b ← step a
      let bs ← compileDistinct key repeated step (key a :: seen) rest
      return b :: bs

/-! ## Indexes -/

namespace IndexDeclaration

/-- The declared kind, which has to be known. -/
def knownKind (i : IndexDeclaration) : Except Fault IndexKind :=
  match IndexKind.ofToken? i.kind with
  | none => .error (.unknownIndexKind i.kind)
  | some kind => .ok kind

/-- An index has a known kind and at least one column, and only columns of its table. -/
def compile (columns : List Column) (i : IndexDeclaration) : Except Fault Schema.Index := do
  let kind ← i.knownKind
  if i.columns.isEmpty then throw (.emptyIndex i.kind)
  match i.columns.find? fun name => !columns.any (·.name = name) with
  | some name => throw (.unknownIndexColumn name)
  | none => return ⟨kind, i.columns⟩

end IndexDeclaration

/-! ## Columns -/

/-- A name has to match the pattern of its kind. -/
def checkName (kind : Identifier) (name : String) : Except Fault Unit :=
  if kind.accepts name then .ok () else .error (.malformedName kind name)

/-- A column of a database, with references followed through all databases. -/
def ColumnDeclaration.compile (databases : List DatabaseDeclaration) (home : DatabaseDeclaration)
    (c : ColumnDeclaration) : Except Failure Column := do
  Failure.unplaced (checkName .column c.name)
  match ← Failure.unplaced c.knownKind with
  | .foreignKey => ForeignKey.resolve databases home c
  | kind => Failure.unplaced (rule kind c)

/-! ## Tables -/

namespace TableDeclaration

/-- The columns of a table. Their failures are placed at the column. -/
def compileColumns (databases : List DatabaseDeclaration) (home : DatabaseDeclaration)
    (t : TableDeclaration) : Except Failure (List Column) :=
  let place (c : ColumnDeclaration) : Location := .ofColumn home.name t.name c.name
  compileDistinct (·.name) (fun c => ⟨.repeatedColumn c.name, some (place c)⟩)
    (fun c => Failure.within (place c) (c.compile databases home)) [] t.columns

/-- Whether more than one index is the primary one. -/
def repeatsPrimary (indexes : List Schema.Index) : Bool :=
  1 < indexes.countP (·.kind = .primary)

def compile (databases : List DatabaseDeclaration) (home : DatabaseDeclaration)
    (t : TableDeclaration) : Except Failure Schema.Table := do
  Failure.unplaced (checkName .table t.name)
  if t.kind ≠ fixedKind then throw { subject := .unsupportedTableKind t.kind }
  let columns ← t.compileColumns databases home
  let indexes ← Failure.unplaced (t.indexes.mapM (·.compile columns))
  if repeatsPrimary indexes then throw { subject := .repeatedPrimaryIndex }
  return ⟨t.name, columns, indexes⟩

end TableDeclaration

/-! ## Databases -/

namespace DatabaseDeclaration

/-- The declared type, which has to be known. -/
def knownKind (d : DatabaseDeclaration) : Except Fault DatabaseKind :=
  match DatabaseKind.ofToken? d.kind with
  | none => .error (.unknownDatabaseKind d.kind)
  | some kind => .ok kind

/-- The place of a database. -/
def location (d : DatabaseDeclaration) : Location :=
  .ofDatabase d.name

/-- A database has a well-formed name and a known type, and repeats neither of those before it. -/
def check (before : List DatabaseDeclaration) (d : DatabaseDeclaration) : Except Fault Unit := do
  checkName .database d.name
  let kind ← d.knownKind
  if before.any (·.name = d.name) then throw (.repeatedDatabase d.name)
  if before.any (·.kind = d.kind) then throw (.repeatedDatabaseKind kind)

/-- Checks the databases behind those already checked. -/
def checkAll (before : List DatabaseDeclaration) : List DatabaseDeclaration → Except Failure Unit
  | [] => .ok ()
  | d :: rest => do
    Failure.within d.location (Failure.unplaced (d.check before))
    checkAll (before ++ [d]) rest

/-- A database of a document. Failures are placed at the table, unless they belong to a column. -/
def compile (databases : List DatabaseDeclaration) (d : DatabaseDeclaration) :
    Except Failure Schema.Database := do
  let kind ← Failure.unplaced d.knownKind
  let place (t : TableDeclaration) : Location := .ofTable d.name t.name
  let tables ← compileDistinct (·.name) (fun t => ⟨.repeatedTable t.name, some (place t)⟩)
    (fun t => Failure.within (place t) (t.compile databases d)) [] d.tables
  return ⟨d.name, kind, tables⟩

end DatabaseDeclaration

/-! ## Documents -/

namespace Document

/-- Compiles a document. -/
def compile (d : Document) : Except Failure Schema := do
  if !admitsCount d.databases.length then
    throw { subject := .databaseCount d.databases.length }
  DatabaseDeclaration.checkAll [] d.databases
  return ⟨← d.databases.mapM (·.compile d.databases)⟩

end Document

/-- Compiles a document from JSON text. -/
def Schema.ofText [Json.RealReader] (text : String) : Except Failure Schema := do
  (← Document.parse text).compile

end SchemaCompiler
