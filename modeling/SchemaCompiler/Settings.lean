import SchemaCompiler.Artifact.Emission
import SchemaCompiler.FileSystem.Operations
import SchemaCompiler.FileSystem.Path
import SchemaCompiler.Toml.Reader

/-!
# Settings

A settings file names the directories of a run and says how artifacts are emitted. What it leaves out
has a default; what it holds beyond that does not matter.
-/

namespace SchemaCompiler

/-- The settings of a run. -/
structure Settings where
  inputDirectory : Option String := none
  outputDirectory : Option String := none
  emission : EmissionOptions := {}
deriving DecidableEq, Repr

namespace Settings

/-! ## Reading -/

/-- The entries of a table with named fields, which may also be an array of them in order. -/
def section? (fields : List String) : Toml.Node → Option Toml.Entries
  | .table _ entries => some entries
  | .array items => some (fields.zip items)
  | _ => none

/-- A string under a key, and another one where the key is missing. -/
def text? (entries : Toml.Entries) (key absent : String) : Option String :=
  match entries.lookup key with
  | none => some absent
  | some (.string s) => some s
  | some _ => none

/-- A string under a key, if the key is there. -/
def path? (entries : Toml.Entries) (key : String) : Option (Option String) :=
  match entries.lookup key with
  | none => some none
  | some (.string s) => some (some s)
  | some _ => none

/-- The entries of a section, of which there are none where it is missing. -/
def sectionAt? (entries : Toml.Entries) (key : String) (fields : List String) :
    Option Toml.Entries :=
  match entries.lookup key with
  | none => some []
  | some node => section? fields node

def sql? (entries : Toml.Entries) : Option Ddl.Options := do
  let absent : Ddl.Options := {}
  return { charset := ← text? entries "charset" absent.charset
           collation := ← text? entries "collation" absent.collation }

def descriptor? (entries : Toml.Entries) : Option Descriptor.Options := do
  let absent : Descriptor.Options := {}
  return { extension := ← text? entries "extension" absent.extension }

/-- The settings that a table describes. -/
def ofEntries? (entries : Toml.Entries) : Option Settings := do
  let sql ← sql? (← sectionAt? entries "sql" ["charset", "collation"])
  let descriptor ← descriptor? (← sectionAt? entries "descriptor" ["extension"])
  return {
    inputDirectory := ← path? entries "input_dir"
    outputDirectory := ← path? entries "output_dir"
    emission := ⟨sql, descriptor⟩ }

/-- Reads settings from TOML text. -/
def parse? (text : String) : Option Settings :=
  (Toml.parse? text).bind ofEntries?

/-! ## Files -/

/-- Why a settings file could not be used. -/
inductive LoadError
  | unreadable (e : IoError)
  | malformed
deriving DecidableEq, Repr

def LoadError.message : LoadError → String
  | .unreadable e => "IO error: " ++ e.message
  | .malformed => "Parse error"

/-- The settings with directories taken from where the settings file lies. -/
def relativeTo (path : String) (s : Settings) : Settings :=
  match Path.parent? path with
  | none => s
  | some directory =>
    { s with
      inputDirectory := s.inputDirectory.map (Path.join directory)
      outputDirectory := s.outputDirectory.map (Path.join directory) }

/-- Reads settings from the text of the file at a path. -/
def ofText (path text : String) : Except LoadError Settings :=
  match parse? text with
  | none => .error .malformed
  | some s => .ok (s.relativeTo path)

/-- Reads the settings file at a path. -/
def load {m : Type → Type} [Monad m] [FileSystem m] (path : String) :
    m (Except LoadError Settings) := do
  match ← FileSystem.readText path with
  | .error e => return .error (.unreadable e)
  | .ok text => return ofText path text

end Settings

end SchemaCompiler
