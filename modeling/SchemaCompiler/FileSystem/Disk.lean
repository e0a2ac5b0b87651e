import SchemaCompiler.FileSystem.Operations
import SchemaCompiler.FileSystem.Path

/-!
# A disk in memory

A disk maps places to files, directories and symbolic links, and answers the file operations as a
hierarchical file system does: a path is followed segment by segment, a link stands for its target, and
each failure has its own error.
-/

namespace SchemaCompiler

/-- Where an entry lies: the names on the way to it from the root. -/
abbrev Place : Type := List String

namespace Disk

inductive Entry
  | file (contents : ByteArray)
  | directory
  | link (target : String)

namespace Entry

def isDirectory : Entry → Bool
  | .directory => true
  | _ => false

def isFile : Entry → Bool
  | .file _ => true
  | _ => false

end Entry

end Disk

/-- Entries at places, and the place that relative paths start at. -/
structure Disk where
  entries : List (Place × Disk.Entry)
  current : Place

namespace Disk

/-! ## Places -/

/-- A disk with nothing on it but an empty current directory. -/
def empty : Disk :=
  ⟨[(["work"], .directory)], ["work"]⟩

/-- What lies at a place; the root is a directory. -/
def entry? (d : Disk) (p : Place) : Option Entry :=
  if p = [] then some .directory else d.entries.lookup p

def put (d : Disk) (p : Place) (e : Entry) : Disk :=
  { d with entries := (p, e) :: d.entries.filter (·.1 ≠ p) }

def erase (d : Disk) (p : Place) : Disk :=
  { d with entries := d.entries.filter fun e => !p.isPrefixOf e.1 }

def move (d : Disk) (source target : Place) : Disk :=
  let moved := d.entries.filterMap fun (p, e) =>
    if source.isPrefixOf p then some (target ++ p.drop source.length, e) else none
  { d with entries := moved ++ ((d.erase source).erase target).entries }

/-- The names in a directory and what they hold. -/
def children (d : Disk) (p : Place) : List (String × Entry) :=
  d.entries.filterMap fun (q, e) =>
    match q.getLast? with
    | some name => if q.dropLast = p then some (name, e) else none
    | none => none

/-! ## Paths -/

/-- The greatest number of bytes in a name. -/
def maxName : Nat := 255

/-- The greatest number of bytes in a path. -/
def maxPath : Nat := 4095

/-- The greatest number of links that a path may lead through. -/
def maxLinks : Nat := 40

def steps (path : String) : List String :=
  (Path.pieces path).filter (· ≠ "")

/-- Follows segments from a directory to a place, where something need not lie yet. A link at the end is
followed only if `follow` says so. -/
def walk (d : Disk) (follow : Bool) (links : Nat) (origin : Place) (segments : List String) :
    Except IoError Place :=
  match segments with
  | [] => .ok origin
  | name :: rest =>
    if name = "." then walk d follow links origin rest
    else if name = ".." then walk d follow links origin.dropLast rest
    else if maxName < name.utf8ByteSize then .error .nameTooLong
    else
      let place := origin ++ [name]
      match d.entry? place with
      | none => if rest = [] then .ok place else .error .notFound
      | some .directory => walk d follow links place rest
      | some (.file _) => if rest = [] then .ok place else .error .notADirectory
      | some (.link target) =>
        if rest = [] ∧ follow = false then .ok place
        else
          match links with
          | 0 => .error .tooManyLinks
          | links + 1 =>
            walk d follow links (if Path.isAbsolute target then [] else origin)
              (steps target ++ rest)
termination_by (links, segments.length)

/-- Whether a path ends in a slash, so that it can only mean a directory. -/
def endsInSlash (path : String) : Bool :=
  path.toList.getLast? = some '/'

/-- The place that a path leads to. -/
def resolve (d : Disk) (follow : Bool) (path : String) : Except IoError Place :=
  if path.toList.contains '\x00' then .error .nulByte
  else if path = "" then .error .notFound
  else if maxPath < path.utf8ByteSize then .error .nameTooLong
  else walk d follow maxLinks (if Path.isAbsolute path then [] else d.current) (steps path)

def find (d : Disk) (path : String) : Except IoError (Place × Entry) := do
  let p ← d.resolve true path
  match d.entry? p with
  | none => throw .notFound
  | some (.file contents) =>
    if endsInSlash path then throw .notADirectory else return (p, .file contents)
  | some e => return (p, e)

/-! ## Operations -/

def read (d : Disk) (path : String) : Except IoError ByteArray := do
  match (← d.find path).2 with
  | .file contents => return contents
  | _ => throw .isADirectory

def isFile (d : Disk) (path : String) : Bool :=
  match d.find path with
  | .ok (_, .file _) => true
  | _ => false

def isDirectory (d : Disk) (path : String) : Bool :=
  match d.find path with
  | .ok (_, .directory) => true
  | _ => false

def exists? (d : Disk) (path : String) : Bool :=
  match d.find path with
  | .ok _ => true
  | .error _ => false

def write (d : Disk) (path : String) (contents : ByteArray) : Except IoError Disk := do
  let p ← d.resolve true path
  match d.entry? p with
  | some (.file _) =>
    if endsInSlash path then throw .notADirectory else return d.put p (.file contents)
  | none => if endsInSlash path then throw .isADirectory else return d.put p (.file contents)
  | some _ => throw .isADirectory

/-- Whether the last segment of a path names no entry of its own. -/
def endsInDots (path : String) : Bool :=
  match (steps path).getLast? with
  | some last => last = "." || last = ".."
  | none => true

/-- Moves an entry. A directory is not moved over a file, over entries nor into itself, and nothing over
a directory but a directory. -/
def rename (d : Disk) (source target : String) : Except IoError Disk := do
  let p ← d.resolve false source
  let q ← d.resolve false target
  if endsInDots source ∨ endsInDots target then throw .busy
  match d.entry? p with
  | none => throw .notFound
  | some e =>
    if !e.isDirectory ∧ (endsInSlash source ∨ endsInSlash target) then throw .notADirectory
    else if p = q then return d
    else if p.isPrefixOf q then throw .invalidArgument
    else if q.isPrefixOf p then throw .notEmpty
    else
      match d.entry? q with
      | none => return d.move p q
      | some old =>
        if old.isDirectory ∧ !e.isDirectory then throw .isADirectory
        else if e.isDirectory ∧ !old.isDirectory then throw .notADirectory
        else if (d.children q).isEmpty then return d.move p q
        else throw .notEmpty

def unlink (d : Disk) (path : String) : Except IoError Disk := do
  let p ← d.resolve false path
  match d.entry? p with
  | none => throw .notFound
  | some .directory => throw .isADirectory
  | some _ => if endsInSlash path then throw .notADirectory else return d.erase p

def makeDirectory (d : Disk) (path : String) : Except IoError Disk := do
  let p ← d.resolve false path
  match d.entry? p with
  | some _ => throw .alreadyExists
  | none => return d.put p .directory

/-- Makes a directory that may be there already, and says whether it is there now. -/
def ensureDirectory (d : Disk) (path : String) : Except IoError Unit × Disk :=
  match d.makeDirectory path with
  | .ok d' => (.ok (), d')
  | .error e => (if d.isDirectory path then .ok () else .error e, d)

/-- Makes the first of several directories, each of which lies in the next one. Those behind it are made
only when it cannot be made without them, and stay even if it cannot be made at all. -/
def makeAll (d : Disk) : List String → Except IoError Unit × Disk
  | [] => (.ok (), d)
  | path :: outer =>
    if path = "" then (.ok (), d)
    else
      match d.ensureDirectory path with
      | (.error .notFound, _) =>
        match makeAll d outer with
        | (.error e, d') => (.error e, d')
        | (.ok (), d') => d'.ensureDirectory path
      | done => done

/-- Makes a directory and the directories around it, where they are missing. -/
def makeDirectories (d : Disk) (path : String) : Except IoError Unit × Disk :=
  d.makeAll (Path.ancestors path)

/-- The entries of a directory; anything else has none. -/
def list (d : Disk) (path : String) : Except IoError (List DirectoryEntry) := do
  match ← d.find path with
  | (p, .directory) =>
    return (d.children p).map fun (name, e) => ⟨name, e.isFile⟩
  | _ => return []

def makeLink (d : Disk) (path target : String) : Except IoError Disk := do
  let p ← d.resolve false path
  match d.entry? p with
  | some _ => throw .alreadyExists
  | none => return d.put p (.link target)

def removeAll (d : Disk) (path : String) : Except IoError Disk := do
  return d.erase (← d.resolve false path)

/-! ## Inventory -/

/-- The names and entries below a directory, each directory in front of what it holds, in the order of
the bytes of names. -/
def inventory (d : Disk) (path : String) : List (Place × Entry) :=
  match d.find path with
  | .ok (p, .directory) =>
    let below := d.entries.filterMap fun (q, e) =>
      if p.isPrefixOf q ∧ p ≠ q then some (q.drop p.length, e) else none
    below.mergeSort fun a b => decide (a.1.map Path.nameBytes ≤ b.1.map Path.nameBytes)
  | _ => []

/-! ## A run on a disk -/

/-- Performs an operation that may change the disk. -/
def attempt (change : Disk → Except IoError Disk) : StateM Disk (Except IoError Unit) :=
  fun d =>
    match change d with
    | .ok d' => (.ok (), d')
    | .error e => (.error e, d)

/-- Performs an operation that may change the disk, whatever comes of it. -/
def tryTo (change : Disk → Except IoError Disk) : StateM Disk Unit :=
  fun d =>
    match change d with
    | .ok d' => ((), d')
    | .error _ => ((), d)

instance : FileSystem (StateM Disk) where
  read path := fun d => (d.read path, d)
  write path contents := attempt (·.write path contents.toUTF8)
  rename source target := attempt (·.rename source target)
  restore source target := tryTo (·.rename source target)
  remove path := tryTo (·.unlink path)
  isFile path := fun d => (d.isFile path, d)
  pathExists path := fun d => (d.exists? path, d)
  makeDirectories path := fun d => d.makeDirectories path
  entries path := fun d => (d.list path, d)

end Disk

end SchemaCompiler
