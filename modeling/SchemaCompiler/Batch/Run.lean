import SchemaCompiler.Artifact.Emission
import SchemaCompiler.Artifact.Writing
import SchemaCompiler.Batch.Discovery
import SchemaCompiler.Report.Basic

/-!
# Runs over a directory

Every document of the input directory is compiled on its own, and what happens to it goes into the
report. Only a directory that cannot be listed or made ends the run.
-/

namespace SchemaCompiler

namespace Batch

/-- Why a run ended before its first document. -/
inductive RunError
  | notListed (e : PathError)
  | notMade (e : PathError)
deriving DecidableEq, Repr

def RunError.message : RunError → String
  | .notListed e =>
    "Failed to list input directory: IO error for operation on " ++ e.path ++ ": " ++
    e.error.message
  | .notMade e => e.message

variable {m : Type → Type} [Monad m] [FileSystem m] [Json.RealReader]

/-- Compiles the text of a document and writes its artifacts. -/
def compileInto (mode : Mode) (options : EmissionOptions) (output schema text : String) :
    m Report.Outcome := do
  match Artifact.emit mode options schema text with
  | .error e => return .ofDiagnostic e.diagnostic
  | .ok artifacts =>
    match ← Artifact.writeAll output artifacts with
    | .error e => return .ofMessage e.message
    | .ok digests => return .compiled digests

/-- Compiles one document. -/
def compileInput (mode : Mode) (options : EmissionOptions) (output : String) (i : Input) :
    m Report.Outcome := do
  if !i.hasValidName then
    return .skipped ("'" ++ i.schema ++ "' is not a valid schema name")
  match ← FileSystem.readText i.path with
  | .error e => return .ofMessage (PathError.mk i.path e).message
  | .ok text => compileInto mode options output i.schema text

/-- Compiles documents in order and adds what happens to them to a report. -/
def compileInputs (mode : Mode) (options : EmissionOptions) (output : String) (report : Report) :
    List Input → m Report
  | [] => return report
  | i :: rest => do
    let outcome ← compileInput mode options output i
    compileInputs mode options output (report.add i.schema outcome) rest

/-- Compiles the documents of the directory `input` into the directory `output`. -/
def run (mode : Mode) (options : EmissionOptions) (input output timestamp : String) :
    m (Except RunError Report) := do
  match ← discover input with
  | .error e => return .error (.notListed e)
  | .ok found =>
    match ← FileSystem.makeDirectories output with
    | .error e => return .error (.notMade ⟨output, e⟩)
    | .ok () =>
      let start : Report := { timestamp := timestamp, mode := mode.token }
      return .ok (← compileInputs mode options output start found)

end Batch

end SchemaCompiler
