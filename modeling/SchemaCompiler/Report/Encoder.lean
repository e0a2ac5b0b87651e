import SchemaCompiler.Json.Printer
import SchemaCompiler.Json.Record
import SchemaCompiler.Report.Basic

/-!
# Reports in JSON

An entry is one object: the schema, the status, and the members of that status. The kind of a failure is
null where there is none; its location is left out.
-/

namespace SchemaCompiler

def ArtifactDigest.members (d : ArtifactDigest) : List (String × Json) :=
  [("file", .string d.file), ("sha256", .string d.sha256), ("bytes", .nat d.bytes)]

def ArtifactDigest.encode (d : ArtifactDigest) : Json :=
  .object d.members

def Location.members (l : Location) : List (String × Json) :=
  [("database", Json.orNull .string l.database), ("table", Json.orNull .string l.table),
    ("column", Json.orNull .string l.column)]

def Location.encode (l : Location) : Json :=
  .object l.members

def ErrorKind.encode (k : ErrorKind) : Json :=
  .string k.code

namespace Report

def Version.members (v : Version) : List (String × Json) :=
  [("major", .nat v.major.toNat), ("minor", .nat v.minor.toNat)]

def Version.encode (v : Version) : Json :=
  .object v.members

/-- The status of an outcome and the members that go with it. -/
def Outcome.members : Outcome → List (String × Json)
  | .compiled artifacts =>
    [("status", .string "compiled"), ("artifacts", Json.ofList ArtifactDigest.encode artifacts)]
  | .skipped reason => [("status", .string "skipped"), ("reason", .string reason)]
  | .failed kind message location =>
    [("status", .string "failed"), ("code", Json.orNull ErrorKind.encode kind),
      ("message", .string message)] ++ Json.optionalMember "location" Location.encode location

def Entry.members (e : Entry) : List (String × Json) :=
  ("schema", .string e.schema) :: e.outcome.members

def Entry.encode (e : Entry) : Json :=
  .object e.members

def Summary.members (s : Summary) : List (String × Json) :=
  [("total", .nat s.total), ("compiled", .nat s.compiled), ("skipped", .nat s.skipped),
    ("failed", .nat s.failed)]

def Summary.encode (s : Summary) : Json :=
  .object s.members

def members (r : Report) : List (String × Json) :=
  [("version", r.version.encode), ("timestamp", .string r.timestamp), ("mode", .string r.mode),
    ("summary", r.summary.encode), ("files", Json.ofList Entry.encode r.files)]

def encode (r : Report) : Json :=
  .object r.members

/-- The report as indented JSON text. -/
def text (r : Report) : String :=
  r.encode.pretty

end Report

end SchemaCompiler
