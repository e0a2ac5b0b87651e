import SchemaCompiler.CommandLine.Run
import Std.Time.Format

/-!
# The command line

Runs the program on the files of the system.
-/

namespace SchemaCompiler

namespace Main

/-- The number of a system error, where it has one that says more than its kind. -/
def errorNumber? (e : IO.Error) : Option UInt32 :=
  match e with
  | .alreadyExists _ n _ => some n
  | .inappropriateType _ n _ => some n
  | .invalidArgument _ n _ => some n
  | .noFileOrDirectory _ n _ => some n
  | .otherError n _ => some n
  | .resourceBusy n _ => some n
  | .resourceExhausted _ n _ => some n
  | .unsatisfiedConstraints n _ => some n
  | _ => none

/-- What the system's error says. Some operations give its number negated. -/
def ioError (e : IO.Error) : IoError :=
  match (errorNumber? e).map fun n => min n (0 - n) with
  | some 2 => .notFound
  | some 16 => .busy
  | some 17 => .alreadyExists
  | some 20 => .notADirectory
  | some 21 => .isADirectory
  | some 22 => .invalidArgument
  | some 36 => .nameTooLong
  | some 39 => .notEmpty
  | some 40 => .tooManyLinks
  | _ => .other (toString e)

/-- Performs an action and catches its error. -/
def attempt {α : Type} (action : IO α) : IO (Except IoError α) := do
  try
    return .ok (← action)
  catch e =>
    return .error (ioError e)

/-- Performs an action, whatever comes of it. -/
def tryTo (action : IO Unit) : IO Unit := do
  let _ ← attempt action

/-- What kind of entry a path leads to, with links followed. -/
def kindOf (path : String) : IO IO.FS.FileType := do
  return (← ((← IO.currentDir) / path).metadata).type

/-- The entries of a directory; anything else has none, but an empty path leads nowhere. -/
def listDirectory (path : String) : IO (List DirectoryEntry) := do
  if path = "" then
    throw (.noFileOrDirectory path 2 "")
  if (← kindOf path) != .dir then
    return []
  let found ← ((← IO.currentDir) / path).readDir
  found.toList.mapM fun e => do
    let kind := (← e.path.symlinkMetadata).type
    return ⟨e.fileName, kind == .file⟩

/-- Makes directories; an empty path asks for none. -/
def makeDirectories (path : String) : IO Unit := do
  if path ≠ "" then
    IO.FS.createDirAll path

/-- Whether a path leads to a regular file. -/
def isRegular (path : String) : IO Bool := do
  match ← attempt (kindOf path) with
  | .ok kind => return kind == .file
  | .error _ => return false

instance : FileSystem IO where
  read path := attempt (IO.FS.readBinFile path)
  write path contents := attempt (IO.FS.writeFile path contents)
  rename source target := attempt (IO.FS.rename source target)
  restore source target := tryTo (IO.FS.rename source target)
  remove path := tryTo (IO.FS.removeFile path)
  isFile path := isRegular path
  pathExists path := do return (← attempt (kindOf path)).isOk
  makeDirectories path := attempt (Main.makeDirectories path)
  entries path := attempt (listDirectory path)

/-- The present time. -/
def timestamp : IO String := do
  let now ← Std.Time.Timestamp.now
  return Std.Time.Formats.iso8601.format (Std.Time.DateTime.ofTimestamp now .UTC)

end Main

end SchemaCompiler

open SchemaCompiler in
def main (arguments : List String) : IO UInt32 := do
  let transcript ← CommandLine.run (m := IO) (← Main.timestamp) arguments
  transcript.errors.forM IO.eprintln
  transcript.output.forM IO.println
  return UInt32.ofNat transcript.exit
