import SchemaCompiler.FileSystem.Disk
import Mathlib

/-!
# Volumes

A volume is a map from places to files and directories on which operations may fail at any time. Fates say
which of them do: each write and each move takes the next one. Nothing keeps a clean-up from succeeding,
and there are no links, so that the place of a path depends on the path alone.
-/

namespace SchemaCompiler

namespace Volume

inductive Entry
  | file (contents : ByteArray)
  | directory
deriving DecidableEq

/-- What lies where. -/
abbrev Entries : Type := Place → Option Entry

/-- What is to become of an operation that may fail. -/
inductive Fate
  | granted
  /-- A refused write may leave something in the file. -/
  | refused (error : IoError) (remains : Option ByteArray)

end Volume

/-- Entries, and the fates of the operations to come; those behind the last fate are granted. Relative
paths start at `current`. -/
structure Volume (current : Place) where
  entries : Volume.Entries
  fates : List Volume.Fate

namespace Volume

variable {current : Place}

/-! ## Places -/

/-- The place that one segment of a path leads to. -/
def advance (origin : Place) (piece : String) : Place :=
  if piece = "" ∨ piece = "." then origin
  else if piece = ".." then origin.dropLast
  else origin ++ [piece]

/-- The place that a path leads to. -/
def place (current : Place) (path : String) : Place :=
  (Path.pieces path).foldl advance (if Path.isAbsolute path then [] else current)

namespace Entries

/-- What lies at a place; the root is a directory. -/
def at? (e : Entries) (p : Place) : Option Entry :=
  if p = [] then some .directory else e p

/-- Whether a file may lie at a place: it needs a directory around it, and no directory in its way. -/
def accept (e : Entries) (p : Place) : Except IoError Unit :=
  match e.at? p.dropLast with
  | none => .error .notFound
  | some (.file _) => .error .notADirectory
  | some .directory => if e.at? p = some .directory then .error .isADirectory else .ok ()

/-- Moves a file. Directories stay where they are. -/
def move (e : Entries) (source target : Place) : Except IoError Entries :=
  match e.at? source with
  | none => .error .notFound
  | some .directory => .error .isADirectory
  | some (.file contents) =>
    match e.accept target with
    | .error error => .error error
    | .ok () =>
      .ok (Function.update (Function.update e source none) target (some (.file contents)))

end Entries

/-! ## Operations -/

def fate (v : Volume current) : Fate :=
  v.fates.headD .granted

/-- The volume behind an operation that leaves these entries. -/
def leave (v : Volume current) (e : Entries) : Volume current :=
  ⟨e, v.fates.tail⟩

def write (v : Volume current) (path contents : String) : Except IoError Unit × Volume current :=
  let p := place current path
  match v.entries.accept p, v.fate with
  | .error error, _ => (.error error, v.leave v.entries)
  | .ok (), .refused error none => (.error error, v.leave v.entries)
  | .ok (), .refused error (some remains) =>
    (.error error, v.leave (Function.update v.entries p (some (.file remains))))
  | .ok (), .granted =>
    (.ok (), v.leave (Function.update v.entries p (some (.file contents.toUTF8))))

def rename (v : Volume current) (source target : String) : Except IoError Unit × Volume current :=
  match v.fate, v.entries.move (place current source) (place current target) with
  | .refused error _, _ => (.error error, v.leave v.entries)
  | .granted, .error error => (.error error, v.leave v.entries)
  | .granted, .ok e => (.ok (), v.leave e)

def restore (v : Volume current) (source target : String) : Volume current :=
  match v.entries.move (place current source) (place current target) with
  | .error _ => v
  | .ok e => { v with entries := e }

def remove (v : Volume current) (path : String) : Volume current :=
  let p := place current path
  match v.entries.at? p with
  | some (.file _) => { v with entries := Function.update v.entries p none }
  | _ => v

def isFile (v : Volume current) (path : String) : Bool :=
  match v.entries.at? (place current path) with
  | some (.file _) => true
  | _ => false

instance : FileStore (StateM (Volume current)) where
  write path contents := fun v => v.write path contents
  rename source target := fun v => v.rename source target
  restore source target := fun v => ((), v.restore source target)
  remove path := fun v => ((), v.remove path)
  isFile path := fun v => (v.isFile path, v)

/-- What a program returns on a volume, and the volume behind it. -/
def run {α : Type} (v : Volume current) (program : StateM (Volume current) α) : α × Volume current :=
  program v

end Volume

end SchemaCompiler
