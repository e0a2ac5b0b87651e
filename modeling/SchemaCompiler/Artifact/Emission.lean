import SchemaCompiler.Artifact.Basic
import SchemaCompiler.Ddl.Emission
import SchemaCompiler.Descriptor.Emission
import SchemaCompiler.Descriptor.Rendering
import SchemaCompiler.Schema.Compilation

/-!
# The artifacts of a document

A document compiles either to one script for each of its databases or to one descriptor module.
-/

namespace SchemaCompiler

/-- The settings of descriptor modules. -/
structure Descriptor.Options where
  /-- The extension of descriptor files. -/
  extension : String := "js"
deriving DecidableEq, Repr

/-- The settings of everything that is emitted. -/
structure EmissionOptions where
  sql : Ddl.Options := {}
  descriptor : Descriptor.Options := {}
deriving DecidableEq, Repr

/-- What a run emits. -/
inductive Mode
  | sql
  | descriptor
deriving DecidableEq, Repr

namespace Mode

def all : List Mode := [.sql, .descriptor]

/-- The word for a mode. -/
def token : Mode → String
  | .sql => "sql"
  | .descriptor => "descriptor"

def ofToken? (token : String) : Option Mode :=
  all.find? (·.token = token)

end Mode

namespace Artifact

/-- The file of a database's script. -/
def scriptName (schema : String) (kind : DatabaseKind) : String :=
  schema ++ "." ++ kind.namespaceName ++ ".sql"

/-- The file of a descriptor module. -/
def moduleName (schema extension : String) : String :=
  schema ++ "." ++ extension

/-- The scripts that the text of a document compiles to. -/
def scripts [Json.RealReader] (options : Ddl.Options) (schema text : String) : Except Failure (List Artifact) := do
  let compiled ← Schema.ofText text
  return (Ddl.scripts options compiled).map fun (kind, script) =>
    ⟨scriptName schema kind, script.text⟩

/-- The descriptor module that the text of a document compiles to. -/
def modules [Json.RealReader] (options : Descriptor.Options) (schema text : String) :
    Except Failure (List Artifact) := do
  let descriptor ← Descriptor.ofSchema (← Schema.ofText text)
  return [⟨moduleName schema options.extension, descriptor.text⟩]

/-- The artifacts of a mode. -/
def emit [Json.RealReader] (mode : Mode) (options : EmissionOptions) (schema text : String) :
    Except Failure (List Artifact) :=
  match mode with
  | .sql => scripts options.sql schema text
  | .descriptor => modules options.descriptor schema text

end Artifact

end SchemaCompiler
