/-!
# TOML tables

A document is a tree of tables. Each table remembers how it came about, since that decides what may
still be added to it: a table under a header of its own is closed to dotted keys from outside, and an
inline table is closed altogether.
-/

namespace SchemaCompiler

namespace Toml

/-- How a table came about. -/
inductive Origin
  /-- It has a header of its own. -/
  | header
  /-- It is named on the way to the header of a table below it. -/
  | implied
  /-- It is named on the way to the last segment of a dotted key. -/
  | dotted
  /-- It is written in braces. -/
  | inline
deriving DecidableEq, Repr

/-- A value or a table. -/
inductive Node
  | string (s : String)
  | integer (n : Int)
  | boolean (b : Bool)
  | array (items : List Node)
  | table (origin : Origin) (entries : List (String × Node))
  /-- Tables that share a doubly bracketed header. -/
  | tables (items : List (List (String × Node)))
deriving Repr

instance : Inhabited Node := ⟨.boolean false⟩

/-- The keys of a table and what they hold. -/
abbrev Entries : Type := List (String × Node)

/-- A header, or a key and its value. The last segment of a key stands apart. -/
inductive Line
  | header (path : List String) (key : String)
  | arrayHeader (path : List String) (key : String)
  | pair (path : List String) (key : String) (value : Node)

/-! ## Entries -/

/-- Gives a key another value, or adds it at the end. -/
def put (key : String) (value : Node) : Entries → Entries
  | [] => [(key, value)]
  | (k, v) :: rest => if k = key then (k, value) :: rest else (k, v) :: put key value rest

/-- Changes the last of several tables. -/
def changeLast (change : Entries → Option Entries) : List Entries → Option (List Entries)
  | [] => none
  | [last] => do return [← change last]
  | item :: rest => do return item :: (← changeLast change rest)

/-- Changes the table at a path, which is made where it is missing. A dotted key does not pass through a
table that has a header of its own, and nothing passes through an inline table. -/
def changeAt (dotted : Bool) (change : Origin → Entries → Option Entries) :
    (path : List String) → Origin → Entries → Option Entries
  | [], origin, entries => change origin entries
  | key :: path, _, entries =>
    match entries.lookup key with
    | none => do
      let made : Origin := if dotted then .dotted else .implied
      return put key (.table made (← changeAt dotted change path made [])) entries
    | some (.table origin inner) =>
      if origin = .inline ∨ (dotted ∧ origin = .header) then none
      else do return put key (.table origin (← changeAt dotted change path origin inner)) entries
    | some (.tables items) => do
      return put key (.tables (← changeLast (changeAt dotted change path .header) items)) entries
    | some _ => none

/-- Adds a key and its value. A dotted key ends in a table that dotted keys made. -/
def addPair (path : List String) (key : String) (value : Node) (origin : Origin)
    (entries : Entries) : Option Entries :=
  changeAt true (fun origin entries =>
    if path ≠ [] ∧ origin ≠ .dotted then none
    else if (entries.lookup key).isSome then none
    else some (entries ++ [(key, value)])) path origin entries

/-- Opens the table of a header, which may be implied so far but not have a header already. -/
def openTable (key : String) (entries : Entries) : Option Entries :=
  match entries.lookup key with
  | none => some (entries ++ [(key, .table .header [])])
  | some (.table .implied inner) => some (put key (.table .header inner) entries)
  | some _ => none

/-- Opens one more table of a doubly bracketed header. -/
def openItem (key : String) (entries : Entries) : Option Entries :=
  match entries.lookup key with
  | none => some (entries ++ [(key, .tables [[]])])
  | some (.tables items) => some (put key (.tables (items ++ [[]])) entries)
  | some _ => none

/-- Changes the table at the path of a header. -/
def openAt (opening : Entries → Option Entries) (path : List String) (root : Entries) :
    Option Entries :=
  changeAt false (fun _ entries => opening entries) path .header root

/-! ## Documents -/

/-- The table that lines describe, of which the first pairs go to the table at `current`. -/
def assemble (current : List String) (root : Entries) : List Line → Option Entries
  | [] => some root
  | .header path key :: rest => do
    assemble (path ++ [key]) (← openAt (openTable key) path root) rest
  | .arrayHeader path key :: rest => do
    assemble (path ++ [key]) (← openAt (openItem key) path root) rest
  | .pair path key value :: rest => do
    assemble current (← changeAt false (addPair path key value) current .header root) rest

/-- The entries of an inline table. -/
def inlineEntries (pairs : List (List String × String × Node)) : Option Entries :=
  pairs.foldlM (fun entries (path, key, value) => addPair path key value .inline entries) []

end Toml

end SchemaCompiler
