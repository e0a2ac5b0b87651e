import SchemaCompiler.FileSystem.Operations
import SchemaCompiler.FileSystem.Path
import SchemaCompiler.Identifier

/-!
# Discovery of documents

The documents of a run are the regular files directly in a directory whose names are a stem and the
extension `json`, in the order of the bytes of their names.
-/

namespace SchemaCompiler

namespace Batch

/-- A document that was found. -/
structure Input where
  /-- The stem of the file's name. -/
  schema : String
  path : String
deriving DecidableEq, Repr

/-- Whether the document may be compiled under its name. -/
def Input.hasValidName (i : Input) : Bool :=
  isSchemaName i.schema

/-- The document that an entry of a directory is, if it is one. -/
def Input.ofEntry? (directory : String) (e : DirectoryEntry) : Option Input :=
  match Path.splitExtension e.name with
  | (stem, some extension) =>
    if e.isFile ∧ extension = "json" then some ⟨stem, Path.join directory e.name⟩ else none
  | _ => none

/-- The documents among the entries of a directory. -/
def inputs (directory : String) (entries : List DirectoryEntry) : List Input :=
  (entries.mergeSort fun a b => Path.nameLE a.name b.name).filterMap (Input.ofEntry? directory)

/-- The documents in a directory. -/
def discover {m : Type → Type} [Monad m] [FileSystem m] (directory : String) :
    m (Except PathError (List Input)) := do
  match ← FileSystem.entries directory with
  | .error e => return .error ⟨directory, e⟩
  | .ok entries => return .ok (inputs directory entries)

end Batch

end SchemaCompiler
