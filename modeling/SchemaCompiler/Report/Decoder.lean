import SchemaCompiler.Json.Reader
import SchemaCompiler.Report.Encoder

/-!
# Reports from JSON

Reads what a report was written as. A location that is absent or null is none, which differs from one
whose parts are all null.
-/

namespace SchemaCompiler

def ArtifactDigest.decode? (v : Json) : Option ArtifactDigest := do
  let m ← v.object?
  return {
    file := ← Json.required m "file" Json.string?
    sha256 := ← Json.required m "sha256" Json.string?
    bytes := ← Json.required m "bytes" Json.nat? }

def Location.decode? (v : Json) : Option Location := do
  let m ← v.object?
  return {
    database := ← Json.optional m "database" Json.string?
    table := ← Json.optional m "table" Json.string?
    column := ← Json.optional m "column" Json.string? }

def ErrorKind.decode? (v : Json) : Option ErrorKind :=
  v.string?.bind ofCode?

namespace Report

/-- A part of a version: a natural number of 32 bits. -/
def versionPart? (v : Json) : Option UInt32 :=
  v.nat?.bind fun n => if h : n < UInt32.size then some (.ofNatLT n h) else none

def Version.decode? (v : Json) : Option Version := do
  let m ← v.object?
  return {
    major := ← Json.required m "major" versionPart?
    minor := ← Json.required m "minor" versionPart? }

/-- The outcome that an entry's members tell. -/
def Outcome.ofMembers? (m : List (String × Json)) : Option Outcome := do
  let status ← Json.required m "status" Json.string?
  if status = "compiled" then
    return .compiled (← Json.required m "artifacts" (Json.list? ArtifactDigest.decode?))
  else if status = "skipped" then
    return .skipped (← Json.required m "reason" Json.string?)
  else if status = "failed" then
    return .failed (← Json.optional m "code" ErrorKind.decode?)
      (← Json.required m "message" Json.string?) (← Json.optional m "location" Location.decode?)
  else
    none

def Entry.decode? (v : Json) : Option Entry := do
  let m ← v.object?
  return { schema := ← Json.required m "schema" Json.string?, outcome := ← Outcome.ofMembers? m }

def Summary.decode? (v : Json) : Option Summary := do
  let m ← v.object?
  return {
    total := ← Json.required m "total" Json.nat?
    compiled := ← Json.required m "compiled" Json.nat?
    skipped := ← Json.required m "skipped" Json.nat?
    failed := ← Json.required m "failed" Json.nat? }

def decode? (v : Json) : Option Report := do
  let m ← v.object?
  return {
    version := ← Json.required m "version" Version.decode?
    timestamp := ← Json.required m "timestamp" Json.string?
    mode := ← Json.required m "mode" Json.string?
    summary := ← Json.required m "summary" Summary.decode?
    files := ← Json.required m "files" (Json.list? Entry.decode?) }

/-- Reads a report from JSON text. -/
def parse? [Json.RealReader] (text : String) : Option Report :=
  (Json.parse? text).bind decode?

end Report

end SchemaCompiler
