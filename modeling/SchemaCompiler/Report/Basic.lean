import SchemaCompiler.Artifact.Basic
import SchemaCompiler.Diagnostic

/-!
# Reports

A report lists what happened to every document of a run, and counts the outcomes.
-/

namespace SchemaCompiler

namespace Report

/-- The version of the report's own form. -/
structure Version where
  major : UInt32
  minor : UInt32
deriving DecidableEq, Repr

def Version.current : Version := ⟨1, 0⟩

def Version.text (v : Version) : String :=
  toString v.major ++ "." ++ toString v.minor

/-- What happened to a document. -/
inductive Outcome
  /-- Every artifact was written. -/
  | compiled (artifacts : List ArtifactDigest)
  /-- The document's name is not a schema name, and it was left alone. -/
  | skipped (reason : String)
  /-- Nothing was written. There is no kind where the document itself is not at fault. -/
  | failed (kind : Option ErrorKind) (message : String) (location : Option Location)
deriving DecidableEq, Repr

namespace Outcome

/-- The failure of a document that is at fault. -/
def ofDiagnostic (d : Diagnostic) : Outcome :=
  .failed (some d.subject.kind) d.subject.message d.location

/-- A failure for another reason. -/
def ofMessage (message : String) : Outcome :=
  .failed none message none

end Outcome

/-- The entry of a document. -/
structure Entry where
  schema : String
  outcome : Outcome
deriving DecidableEq, Repr

/-- How many documents had which outcome. -/
structure Summary where
  total : Nat := 0
  compiled : Nat := 0
  skipped : Nat := 0
  failed : Nat := 0
deriving DecidableEq, Repr

/-- Counts one more outcome. -/
def Summary.count (s : Summary) : Outcome → Summary
  | .compiled _ => { s with total := s.total + 1, compiled := s.compiled + 1 }
  | .skipped _ => { s with total := s.total + 1, skipped := s.skipped + 1 }
  | .failed .. => { s with total := s.total + 1, failed := s.failed + 1 }

end Report

/-- A report of a run. -/
structure Report where
  version : Report.Version := .current
  timestamp : String
  /-- The word for what the run emitted. -/
  mode : String
  summary : Report.Summary := {}
  files : List Report.Entry := []
deriving DecidableEq, Repr

namespace Report

/-- Adds the outcome of a document at the end. -/
def add (r : Report) (schema : String) (outcome : Outcome) : Report :=
  { r with summary := r.summary.count outcome, files := r.files ++ [⟨schema, outcome⟩] }

/-- Whether any document failed. -/
def hasFailures (r : Report) : Bool :=
  decide (0 < r.summary.failed)

end Report

end SchemaCompiler
