import SchemaCompiler.EsModule.Basic
import SchemaCompiler.EsModule.Token

/-!
# Reading modules

The part of the module grammar that descriptor modules are written in: object and array literals, calls
that freeze, constants, assignments to a property, and a default export. Every reader gives what stands
behind what it has read. Anything outside this part is refused.
-/

namespace SchemaCompiler

namespace EsModule

/-- A reader of something in front of other tokens. -/
abbrev Reader (α : Type) : Type :=
  List Token → Option (α × List Token)

namespace Reader

open Token

/-- The words that name no constant: the reserved ones, and the object that freezing is a method of. -/
def reservedWords : List String :=
  ["arguments", "await", "break", "case", "catch", "class", "const", "continue", "debugger", "default",
    "delete", "do", "else", "enum", "eval", "export", "extends", "false", "finally", "for", "function",
    "if", "implements", "import", "in", "instanceof", "interface", "let", "new", "null", "package",
    "private", "protected", "public", "return", "static", "super", "switch", "this", "throw", "true",
    "try", "typeof", "var", "void", "while", "with", "yield", "Object"]

/-! ## Parts -/

/-- A number behind a minus sign is not zero, as there is no negative zero among the integers. -/
def literal? : Reader Literal
  | .word "true" :: rest => some (.bool true, rest)
  | .word "false" :: rest => some (.bool false, rest)
  | .string s :: rest => some (.string s, rest)
  | .number n :: rest => some (.int n, rest)
  | .punctuator '-' :: .number n :: rest => if n = 0 then none else some (.int (-n), rest)
  | _ => none

def key? : Reader Key
  | .word s :: rest => some (.name s, rest)
  | .string s :: rest => some (.quoted s, rest)
  | _ => none

def constant? : Reader String
  | .word s :: rest => if s ∈ reservedWords then none else some (s, rest)
  | _ => none

def member? {α : Type} (value? : Reader α) : Reader (Key × α) := fun ts =>
  match key? ts with
  | some (key, .punctuator ':' :: ts) => (value? ts).map fun (value, rest) => ((key, value), rest)
  | _ => none

/-- One or more items with commas between them, up to a closing punctuator. -/
def sequence? {α : Type} (close : Char) (item? : Reader α) (ts : List Token) :
    Option (List α × List Token) :=
  match item? ts with
  | some (a, .punctuator c :: rest) =>
    if c = close then some ([a], rest)
    else if _h : c = ',' ∧ rest.length < ts.length then
      (sequence? close item? rest).map fun (as, rest) => (a :: as, rest)
    else none
  | _ => none
termination_by ts.length
decreasing_by exact _h.2

/-- Items with commas between them, between two punctuators. -/
def enclosed? {α : Type} (opening closing : Char) (item? : Reader α) : Reader (List α)
  | .punctuator c :: rest =>
    if c = opening then
      if rest.head? = some (.punctuator closing) then some ([], rest.tail)
      else sequence? closing item? rest
    else none
  | _ => none

def object? {α : Type} (value? : Reader α) : Reader (List (Key × α)) :=
  enclosed? '{' '}' (member? value?)

def array? : Reader (List Literal) :=
  enclosed? '[' ']' literal?

def frozen? {α : Type} (argument? : Reader α) : Reader α
  | .word "Object" :: .punctuator '.' :: .word "freeze" :: .punctuator '(' :: ts =>
    match argument? ts with
    | some (a, .punctuator ')' :: rest) => some (a, rest)
    | _ => none
  | _ => none

def container? : Reader Value := fun ts =>
  match object? literal? ts with
  | some (members, rest) => some (.frozenObject members, rest)
  | none => (array? ts).map fun (items, rest) => (.frozenArray items, rest)

def value? : Reader Value := fun ts =>
  match literal? ts with
  | some (l, rest) => some (.literal l, rest)
  | none =>
    match frozen? container? ts with
    | some found => some found
    | none => (constant? ts).map fun (name, rest) => (.constant name, rest)

/-! ## Statements -/

def declaration? : Reader Statement := fun ts =>
  match constant? ts with
  | some (name, .punctuator '=' :: ts) =>
    match frozen? (object? value?) ts with
    | some (members, rest) => some (.declareFrozen name members, rest)
    | none => (object? value? ts).map fun (members, rest) => (.declare name members, rest)
  | _ => none

/-- An assignment of a frozen object to a property of a constant. -/
def assignment? : Reader Statement := fun ts =>
  match constant? ts with
  | some (name, .punctuator '.' :: .word property :: .punctuator '=' :: ts) =>
    (frozen? (object? value?) ts).map fun (members, rest) =>
      (.attachFrozen name property members, rest)
  | _ => none

/-- A statement without its semicolon. -/
def clause? : Reader Statement
  | .word "const" :: ts => declaration? ts
  | .word "export" :: .word "default" :: ts =>
    (frozen? (object? value?) ts).map fun (members, rest) => (.exportFrozen members, rest)
  | ts =>
    match frozen? constant? ts with
    | some (name, rest) => some (.freeze name, rest)
    | none => assignment? ts

def statements? (ts : List Token) : Option (List Statement) :=
  if ts = [] then some []
  else
    match clause? ts with
    | some (s, .punctuator ';' :: rest) =>
      if _h : rest.length < ts.length then (statements? rest).map (s :: ·) else none
    | _ => none
termination_by ts.length

end Reader

/-- Reads the text of a module. -/
def read? (text : String) : Option EsModule := do
  return ⟨← Reader.statements? (← Token.lex text.toList)⟩

end EsModule

end SchemaCompiler
