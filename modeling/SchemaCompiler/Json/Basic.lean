import SchemaCompiler.Binary64.Integer

/-!
# JSON values

A number is held as a word with or without a sign where its literal is an integer that fits one, and as a
double otherwise. Members of an object keep their order.
-/

namespace SchemaCompiler

namespace Json

/-- A JSON number. -/
inductive Number
  | unsigned (n : UInt64)
  | negative (n : Int64) (h : n < 0)
  | real (x : Binary64)
deriving DecidableEq, Repr

namespace Number

/-- The number that a literal denotes, whichever way it is held. -/
def value : Number → Rat
  | .unsigned n => n.toNat
  | .negative n _ => n.toInt
  | .real x => x.toRat

/-- An integer as it is held: only a negative one has a sign. -/
def ofInt64 (n : Int64) : Number :=
  if h : n < 0 then .negative n h else .unsigned n.toUInt64

/-- The integer that is held, if a word with a sign holds it. -/
def asInt64? : Number → Option Int64
  | .unsigned n => if n ≤ Int64.maxValue.toUInt64 then some n.toInt64 else none
  | .negative n _ => some n
  | .real _ => none

/-- Whether a word without a sign holds the number. -/
def isUInt64 : Number → Bool
  | .unsigned _ => true
  | .negative .. | .real _ => false

/-- The double nearest to the number. -/
def asBinary64? : Number → Option Binary64
  | .unsigned n => Binary64.ofUInt64? n
  | .negative n _ => Binary64.ofInt64? n
  | .real x => some x

end Number

end Json

/-- A JSON value. -/
inductive Json
  | null
  | bool (b : Bool)
  | number (n : Json.Number)
  | string (s : String)
  | array (items : List Json)
  | object (members : List (String × Json))
deriving Repr

namespace Json

instance : Inhabited Json := ⟨.null⟩

/-- An integer as a JSON value. -/
def int (n : Int64) : Json :=
  .number (.ofInt64 n)

/-- A natural number of a word as a JSON value. -/
def nat (n : Nat) : Json :=
  .number (.unsigned (.ofNat n))

/-- Sets a member: a new key goes to the end, a known key keeps its place and takes the new value. -/
def setMember (key : String) (value : Json) : List (String × Json) → List (String × Json)
  | [] => [(key, value)]
  | (k, v) :: rest =>
    if k = key then (k, value) :: rest else (k, v) :: setMember key value rest

/-- The members that remain of a text's members when the last value of a repeated key wins. -/
def collectMembers (members : List (String × Json)) : List (String × Json) :=
  members.foldl (fun kept (key, value) => setMember key value kept) []

mutual

/-- How deep arrays and objects nest in a value; a scalar has depth zero. -/
def depth : Json → Nat
  | .array items => depthItems items + 1
  | .object members => depthMembers members + 1
  | _ => 0

/-- The greatest depth among the items of an array. -/
def depthItems : List Json → Nat
  | [] => 0
  | v :: rest => max (depth v) (depthItems rest)

/-- The greatest depth among the members of an object. -/
def depthMembers : List (String × Json) → Nat
  | [] => 0
  | (_, v) :: rest => max (depth v) (depthMembers rest)

end

end Json

end SchemaCompiler
