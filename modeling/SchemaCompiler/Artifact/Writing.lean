import SchemaCompiler.Artifact.Basic
import SchemaCompiler.FileSystem.Operations
import SchemaCompiler.FileSystem.Path

/-!
# Writing artifacts

Several artifacts are written all or none. Each goes to a temporary file beside its target first. Only
when all are there are they moved into place, with the file that was at a target kept as a backup; if a
move fails, the targets that were already replaced get their backups back, newest first.
-/

namespace SchemaCompiler

namespace Artifact

/-! ## Names -/

/-- The temporary file of an artifact. -/
def temporaryName (fileName : String) : String :=
  "." ++ fileName ++ ".tmp"

/-- The backup of a file. -/
def backupName (fileName : String) : String :=
  "." ++ fileName ++ ".bak"

/-- The path of the backup of what is at a path. -/
def backupPath (target : String) : String :=
  Path.withFileName target (backupName ((Path.fileName? target).getD ""))

/-- A temporary file and the target that it is for. -/
structure Staged where
  temporary : String
  target : String
deriving DecidableEq, Repr

/-- A target that was replaced, and the backup of what was there. -/
structure Committed where
  target : String
  backup : Option String
deriving DecidableEq, Repr

/-- Where an artifact goes in a directory. -/
def staging (directory : String) (a : Artifact) : Staged :=
  ⟨Path.join directory (temporaryName a.fileName), Path.join directory a.fileName⟩

/-! ## Steps -/

variable {m : Type → Type} [Monad m] [FileStore m]

/-- Removes the temporary files. -/
def discard : List Staged → m Unit
  | [] => pure ()
  | s :: rest => do
    FileStore.remove s.temporary
    discard rest

/-- Undoes replacements, in the order given. -/
def undo : List Committed → m Unit
  | [] => pure ()
  | c :: rest => do
    match c.backup with
    | some backup => FileStore.restore backup c.target
    | none => FileStore.remove c.target
    undo rest

/-- Removes the backups. -/
def removeBackups : List Committed → m Unit
  | [] => pure ()
  | c :: rest => do
    match c.backup with
    | some backup => FileStore.remove backup
    | none => pure ()
    removeBackups rest

/-- Writes the temporary files behind those already written. -/
def stage (directory : String) (staged : List Staged) :
    List Artifact → m (Except PathError (List Staged))
  | [] => return .ok staged
  | a :: rest => do
    let s := a.staging directory
    match ← FileStore.write s.temporary a.contents with
    | .error e =>
      discard staged
      FileStore.remove s.temporary
      return .error ⟨s.temporary, e⟩
    | .ok () => stage directory (staged ++ [s]) rest

/-- Moves away the file at a target, if there is one. -/
def backUp (target : String) : m (Except IoError (Option String)) := do
  if ← FileStore.isFile target then
    match ← FileStore.rename target (backupPath target) with
    | .error e => return .error e
    | .ok () => return .ok (some (backupPath target))
  else
    return .ok none

/-- Replaces one target. A failure leaves the target as it was. -/
def replace (s : Staged) : m (Except IoError Committed) := do
  match ← backUp s.target with
  | .error e => return .error e
  | .ok backup =>
    match ← FileStore.rename s.temporary s.target with
    | .ok () => return .ok ⟨s.target, backup⟩
    | .error e =>
      match backup with
      | some path => FileStore.restore path s.target
      | none => pure ()
      return .error e

/-- Replaces the targets behind those already replaced. -/
def commit (committed : List Committed) : List Staged → m (Except PathError (List Committed))
  | [] => return .ok committed
  | s :: rest => do
    match ← replace s with
    | .ok c => commit (committed ++ [c]) rest
    | .error e =>
      undo committed.reverse
      discard (s :: rest)
      return .error ⟨s.target, e⟩

/-- Writes artifacts into a directory, all or none. -/
def writeAll (directory : String) (artifacts : List Artifact) :
    m (Except PathError (List ArtifactDigest)) := do
  match ← stage directory [] artifacts with
  | .error e => return .error e
  | .ok staged =>
    match ← commit [] staged with
    | .error e => return .error e
    | .ok committed =>
      removeBackups committed
      return .ok (artifacts.map Artifact.digest)

end Artifact

end SchemaCompiler
