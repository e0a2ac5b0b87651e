import SchemaCompiler.Text.Split

/-!
# Paths

Paths are text, with a slash between segments. Empty segments and single dots do not count, except for a
leading dot; nothing is looked up.
-/

namespace SchemaCompiler

namespace Path

/-! ## Segments -/

/-- The text between slashes, from the front. -/
def pieces (path : String) : List String :=
  (Text.splitBy (· = '/') path.toList).map String.ofList

/-- Whether a path starts at the root. -/
def isAbsolute (path : String) : Bool :=
  path.toList.head? = some '/'

/-- Drops segments that do not count from a reversed path, but not a leading dot. -/
def dropIdle : List String → List String
  | [] => []
  | [first] => if first = "" then [] else [first]
  | piece :: rest => if piece = "" ∨ piece = "." then dropIdle rest else piece :: rest

/-- The segments from the back, of which the first one counts. -/
def reversed (path : String) : List String :=
  dropIdle (pieces path).reverse

/-- The path of reversed segments. -/
def ofReversed (absolute : Bool) : List String → String
  | [] => if absolute then "/" else ""
  | segments => "/".intercalate segments.reverse

/-! ## Parts -/

/-- A path relative to another one, unless it is absolute. -/
def join (directory path : String) : String :=
  if isAbsolute path then path
  else if directory = "" ∨ directory.toList.getLast? = some '/' then directory ++ path
  else directory ++ "/" ++ path

/-- The path of the directory that holds a path. -/
def parent? (path : String) : Option String :=
  match reversed path with
  | [] => none
  | _ :: rest => some (ofReversed (isAbsolute path) (dropIdle rest))

/-- The last segment, unless it stands for a directory seen from elsewhere. -/
def fileName? (path : String) : Option String :=
  match reversed path with
  | [] => none
  | name :: _ => if name = "." ∨ name = ".." then none else some name

/-- The path with another last segment. -/
def withFileName (path name : String) : String :=
  match fileName? path with
  | none => join path name
  | some _ => join ((parent? path).getD "") name

/-- The paths of the directories around reversed segments, from the inside. -/
def outward (absolute : Bool) : List String → List String
  | [] => []
  | _ :: rest =>
    if dropIdle rest = rest then ofReversed absolute rest :: outward absolute rest
    else outward absolute rest

/-- A path and the paths of the directories around it, from the inside. -/
def ancestors (path : String) : List String :=
  path :: outward (isAbsolute path) (reversed path)

/-! ## Extensions -/

/-- The stem and the extension of a file name: what stands on either side of the last dot, if anything
stands in front of it. -/
def splitExtension (name : String) : String × Option String :=
  let characters := name.toList.reverse
  let extension := characters.takeWhile (· ≠ '.')
  match characters.drop extension.length with
  | [] => (name, none)
  | _ :: stem =>
    if stem = [] ∨ name = ".." then (name, none)
    else (String.ofList stem.reverse, some (String.ofList extension.reverse))

/-- The bytes by which names are ordered. -/
def nameBytes (name : String) : List UInt8 :=
  name.toUTF8.toList

/-- Whether a name comes no later than another one in the order of bytes. -/
def nameLE (a b : String) : Bool :=
  decide (nameBytes a ≤ nameBytes b)

end Path

end SchemaCompiler
