import SchemaCompiler.Digest.Sha256

/-!
# Artifacts

An artifact is one emitted file, rendered in memory. Its digest names the file and pins its contents.
-/

namespace SchemaCompiler

/-- What identifies the contents of a written file. -/
structure ArtifactDigest where
  file : String
  /-- The SHA-256 digest of the contents in lower-case hexadecimal digits. -/
  sha256 : String
  bytes : Nat
deriving DecidableEq, Repr

/-- An emitted file. -/
structure Artifact where
  fileName : String
  contents : String
deriving DecidableEq, Repr

def Artifact.digest (a : Artifact) : ArtifactDigest :=
  { file := a.fileName
    sha256 := Sha256.hex a.contents.toUTF8.toList
    bytes := a.contents.utf8ByteSize }

end SchemaCompiler
