/-!
# File operations

What a run asks of the file system. Two operations are for clean-up: they do what they can, and nobody
asks whether they succeeded.
-/

namespace SchemaCompiler

/-- Why an operation failed. -/
inductive IoError
  | notFound
  | busy
  | alreadyExists
  | notADirectory
  | isADirectory
  | invalidArgument
  | nameTooLong
  | notEmpty
  | tooManyLinks
  | nulByte
  | invalidUtf8
  /-- Another failure, as the system words it. -/
  | other (description : String)
deriving DecidableEq, Repr

namespace IoError

/-- What the system calls an error, and its number. -/
def system (name : String) (number : Nat) : String :=
  name ++ " (os error " ++ toString number ++ ")"

def message : IoError → String
  | .notFound => system "No such file or directory" 2
  | .busy => system "Device or resource busy" 16
  | .alreadyExists => system "File exists" 17
  | .notADirectory => system "Not a directory" 20
  | .isADirectory => system "Is a directory" 21
  | .invalidArgument => system "Invalid argument" 22
  | .nameTooLong => system "File name too long" 36
  | .notEmpty => system "Directory not empty" 39
  | .tooManyLinks => system "Too many levels of symbolic links" 40
  | .nulByte => "file name contained an unexpected NUL byte"
  | .invalidUtf8 => "stream did not contain valid UTF-8"
  | .other description => description

end IoError

/-- The name of a directory entry, and whether the entry is a regular file. -/
structure DirectoryEntry where
  name : String
  isFile : Bool
deriving DecidableEq, Repr

/-- The operations that change files, in a monad. -/
class FileStore (m : Type → Type) where
  /-- Creates a file or replaces its contents. -/
  write : (path contents : String) → m (Except IoError Unit)
  /-- Moves a file, over another one if need be. -/
  rename : (source target : String) → m (Except IoError Unit)
  /-- Moves a file back, if that is possible. -/
  restore : (source target : String) → m Unit
  /-- Removes a file, if there is one. -/
  remove : (path : String) → m Unit
  /-- Whether a path leads to a regular file. -/
  isFile : (path : String) → m Bool

/-- All operations, in a monad. -/
class FileSystem (m : Type → Type) extends FileStore m where
  /-- The contents of a file. -/
  read : (path : String) → m (Except IoError ByteArray)
  /-- Whether a path leads to anything. -/
  pathExists : (path : String) → m Bool
  /-- Makes a directory and the directories around it, where they are missing. -/
  makeDirectories : (path : String) → m (Except IoError Unit)
  /-- The entries of a directory in any order; anything but a directory has none. -/
  entries : (path : String) → m (Except IoError (List DirectoryEntry))

namespace FileSystem

export FileStore (write rename restore remove isFile)

variable {m : Type → Type} [Monad m] [FileSystem m]

/-- The contents of a file as text. -/
def readText (path : String) : m (Except IoError String) := do
  match ← read path with
  | .error e => return .error e
  | .ok bytes =>
    match String.fromUTF8? bytes with
    | none => return .error .invalidUtf8
    | some text => return .ok text

end FileSystem

/-- A failure at a path. -/
structure PathError where
  path : String
  error : IoError
deriving DecidableEq, Repr

def PathError.message (e : PathError) : String :=
  "IO error at " ++ e.path ++ ": " ++ e.error.message

end SchemaCompiler
