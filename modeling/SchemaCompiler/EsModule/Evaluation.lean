import SchemaCompiler.Column.Basic
import SchemaCompiler.EsModule.Basic

/-!
# Evaluation of modules

Statements run in order on a heap of objects, which are told apart by their addresses. A constant is
declared once and known from then on; a frozen object takes no assignment; a key that is given again
replaces what was there; the key of the prototype sets the prototype and is no property.
-/

namespace SchemaCompiler

namespace EsModule

/-! ## Values and objects -/

abbrev Address : Type := Nat

/-- What a property holds. -/
inductive Datum
  | bool (b : Bool)
  | number (n : Int)
  | string (s : String)
  | object (a : Address)
deriving DecidableEq, Repr

/-- Properties in the order in which they were made. -/
abbrev Properties : Type := List (String × Datum)

inductive Object
  /-- An object with its own properties. Without a prototype of its own it has the ordinary one. -/
  | record (properties : Properties) (prototype : Option Address) (frozen : Bool)
  | array (items : List Datum) (frozen : Bool)
deriving DecidableEq, Repr

abbrev Heap : Type := List Object

/-- What has come of a module so far. -/
structure State where
  heap : Heap
  constants : List (String × Address)
deriving DecidableEq, Repr

/-- The constant that keeps what a module exports. No word is spelled like it. -/
def exportConstant : String := "*default*"

inductive RuntimeError
  | redeclared (name : String)
  /-- A constant that is not declared, or not yet. -/
  | undeclared (name : String)
  /-- An assignment that the object takes not, or may not take. -/
  | refusedAssignment (name property : String)
  | repeatedPrototype
  /-- A number that doubles do not hold exactly. -/
  | inexact (n : Int)
deriving DecidableEq, Repr

/-! ## Properties -/

/-- The key that stands for the prototype. -/
def prototypeKey : String := "__proto__"

/-- Properties behind an assignment, which replaces a property of the same key. -/
def assign (key : String) (value : Datum) : Properties → Properties
  | [] => [(key, value)]
  | (k, v) :: rest => if k = key then (key, value) :: rest else (k, v) :: assign key value rest

/-- The prototype behind an assignment to it. Only objects count. -/
def assignPrototype (value : Datum) (prototype : Option Address) : Option Address :=
  match value with
  | .object a => some a
  | _ => prototype

/-- What the members of a literal make, one after the other. -/
def define (properties : Properties) (prototype : Option Address) :
    List (String × Datum) → Properties × Option Address
  | [] => (properties, prototype)
  | (key, value) :: rest =>
    if key = prototypeKey then define properties (assignPrototype value prototype) rest
    else define (assign key value properties) prototype rest

/-- An object with the ordinary prototype behind an assignment to one of its properties. -/
def assignedObject (property : String) (value : Datum) (properties : Properties) : Object :=
  if property = prototypeKey then .record properties (assignPrototype value none) false
  else .record (assign property value properties) none false

def literalObject (frozen : Bool) (members : List (String × Datum)) : Except RuntimeError Object :=
  if 1 < members.countP (·.1 = prototypeKey) then .error .repeatedPrototype
  else
    let (properties, prototype) := define [] none members
    .ok (.record properties prototype frozen)

/-! ## Values -/

def Key.string : Key → String
  | .name s => s
  | .quoted s => s

def Literal.datum : Literal → Except RuntimeError Datum
  | .bool b => .ok (.bool b)
  | .int n => if n.natAbs ≤ maxSafeInteger.toInt then .ok (.number n) else .error (.inexact n)
  | .string s => .ok (.string s)

namespace State

def empty : State := ⟨[], []⟩

def allocate (s : State) (o : Object) : Address × State :=
  (s.heap.length, { s with heap := s.heap ++ [o] })

def constant (s : State) (name : String) : Except RuntimeError Address :=
  match s.constants.lookup name with
  | none => .error (.undeclared name)
  | some a => .ok a

def declare (s : State) (name : String) (a : Address) : Except RuntimeError State :=
  if (s.constants.lookup name).isSome then .error (.redeclared name)
  else .ok { s with constants := (name, a) :: s.constants }

def literals (members : List (Key × Literal)) : Except RuntimeError (List (String × Datum)) :=
  members.mapM fun (key, l) => do return (key.string, ← l.datum)

def value (s : State) : Value → Except RuntimeError (Datum × State)
  | .literal l => do return (← l.datum, s)
  | .constant name => do return (.object (← s.constant name), s)
  | .frozenObject members => do
    let (a, s) := s.allocate (← literalObject true (← literals members))
    return (.object a, s)
  | .frozenArray items => do
    let (a, s) := s.allocate (.array (← items.mapM Literal.datum) true)
    return (.object a, s)

def members (s : State) : List (Key × Value) → Except RuntimeError (List (String × Datum) × State)
  | [] => .ok ([], s)
  | (key, v) :: rest => do
    let (datum, s) ← s.value v
    let (data, s) ← s.members rest
    return ((key.string, datum) :: data, s)

def object (s : State) (frozen : Bool) (ms : List (Key × Value)) :
    Except RuntimeError (Address × State) := do
  let (data, s) ← s.members ms
  return s.allocate (← literalObject frozen data)

/-! ## Statements -/

/-- Assigns a property of the object that a constant holds. Neither a frozen object takes it nor an array,
nor an object with a prototype of its own, as a frozen prototype may forbid it. -/
def attach (s : State) (name property : String) (value : Datum) : Except RuntimeError State := do
  let a ← s.constant name
  match s.heap[a]? with
  | some (.record properties none false) =>
    return { s with heap := s.heap.set a (assignedObject property value properties) }
  | _ => throw (.refusedAssignment name property)

def freeze (s : State) (name : String) : Except RuntimeError State := do
  let a ← s.constant name
  match s.heap[a]? with
  | some (.record properties prototype _) =>
    return { s with heap := s.heap.set a (.record properties prototype true) }
  | some (.array items _) => return { s with heap := s.heap.set a (.array items true) }
  | none => return s

def step (s : State) : Statement → Except RuntimeError State
  | .declare name ms => do
    let (a, s) ← s.object false ms
    s.declare name a
  | .declareFrozen name ms => do
    let (a, s) ← s.object true ms
    s.declare name a
  | .attachFrozen name property ms => do
    let (a, s) ← s.object true ms
    s.attach name property (.object a)
  | .freeze name => s.freeze name
  | .exportFrozen ms => do
    let (a, s) ← s.object true ms
    s.declare exportConstant a

def steps (s : State) : List Statement → Except RuntimeError State
  | [] => .ok s
  | statement :: rest => do
    let s ← s.step statement
    s.steps rest

end State

/-- Runs a module: the heap that it leaves and the object that it exports. -/
def evaluate (m : EsModule) : Except RuntimeError (Heap × Address) := do
  let s ← State.empty.steps m.statements
  return (s.heap, ← s.constant exportConstant)

end EsModule

end SchemaCompiler
