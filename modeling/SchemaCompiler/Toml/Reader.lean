import SchemaCompiler.Json.Quoted
import SchemaCompiler.Toml.Basic
import SchemaCompiler.Word64

/-!
# Reading TOML

The part of the format that settings use: comments, headers, bare, quoted and dotted keys, strings on
one line, integers, booleans, arrays and inline tables.
-/

namespace SchemaCompiler

namespace Toml

/-! ## Characters -/

def isSpace (c : Char) : Bool :=
  c = ' ' || c = '\t'

/-- Control characters, of which strings and comments may hold only the tabulator. -/
def isForbidden (c : Char) : Bool :=
  (c.toNat < 0x20 && c ≠ '\t') || c.toNat = 0x7F

/-- Characters of a key without quotes. -/
def isBare (c : Char) : Bool :=
  c.isAlphanum || c = '_' || c = '-'

def skipSpace (s : List Char) : List Char :=
  s.dropWhile isSpace

/-- What stands behind blanks, comments and line ends. A comment ends with its line. -/
def skipLines? : (inComment : Bool) → List Char → Option (List Char)
  | _, [] => some []
  | _, '\n' :: rest => skipLines? false rest
  | _, '\r' :: '\n' :: rest => skipLines? false rest
  | true, c :: rest => if isForbidden c then none else skipLines? true rest
  | false, '#' :: rest => skipLines? true rest
  | false, c :: rest => if isSpace c then skipLines? false rest else some (c :: rest)

/-- Whether a line is over but for blanks and a comment. -/
def endsLine (s : List Char) : Bool :=
  match skipSpace s with
  | [] => true
  | '\n' :: _ => true
  | '\r' :: '\n' :: _ => true
  | '#' :: _ => true
  | _ => false

/-! ## Strings -/

/-- The character of a code point, unless it is a surrogate or out of range. -/
def scalarValue? (n : Nat) : Option Char :=
  if h : n.isValidChar then some (Char.ofNatAux n h) else none

/-- The character that a one-letter escape stands for. -/
def escapedChar? (c : Char) : Option Char :=
  match c with
  | 'b' => some '\x08'
  | 't' => some '\t'
  | 'n' => some '\n'
  | 'f' => some '\x0c'
  | 'r' => some '\r'
  | '"' => some '"'
  | '\\' => some '\\'
  | _ => none

/-- The characters up to the closing double quote, and what stands behind it. -/
def basicString? : List Char → Option (List Char × List Char)
  | [] => none
  | '"' :: rest => some ([], rest)
  | '\\' :: 'u' :: a :: b :: c :: d :: rest => do
    let char ← scalarValue? (← Json.hexUnit? a b c d)
    let (tail, rest) ← basicString? rest
    return (char :: tail, rest)
  | '\\' :: 'U' :: a :: b :: c :: d :: e :: f :: g :: h :: rest => do
    let high ← Json.hexUnit? a b c d
    let low ← Json.hexUnit? e f g h
    let char ← scalarValue? (high * 0x10000 + low)
    let (tail, rest) ← basicString? rest
    return (char :: tail, rest)
  | '\\' :: c :: rest => do
    let char ← escapedChar? c
    let (tail, rest) ← basicString? rest
    return (char :: tail, rest)
  | c :: rest =>
    if isForbidden c ∨ c = '\\' then none
    else do
      let (tail, rest) ← basicString? rest
      return (c :: tail, rest)

/-- The characters up to the closing single quote, and what stands behind it. -/
def literalString? : List Char → Option (List Char × List Char)
  | [] => none
  | '\'' :: rest => some ([], rest)
  | c :: rest =>
    if isForbidden c then none
    else do
      let (tail, rest) ← literalString? rest
      return (c :: tail, rest)

/-! ## Keys -/

/-- One segment of a key. -/
def segment? (s : List Char) : Option (String × List Char) :=
  match s with
  | '"' :: rest => (basicString? rest).map fun (t, rest) => (String.ofList t, rest)
  | '\'' :: rest => (literalString? rest).map fun (t, rest) => (String.ofList t, rest)
  | _ =>
    match s.takeWhile isBare with
    | [] => none
    | bare => some (String.ofList bare, s.dropWhile isBare)

/-- The segments of a key, and what stands behind it and blanks. -/
def key? (s : List Char) : Option (List String × List Char) :=
  match segment? s with
  | none => none
  | some (first, rest) =>
    match skipSpace rest with
    | '.' :: rest =>
      let rest := skipSpace rest
      if rest.length < s.length then
        match key? rest with
        | none => none
        | some (path, rest) => some (first :: path, rest)
      else
        none
    | rest => some ([first], rest)
termination_by s.length

/-! ## Numbers -/

/-- The digits of a number in which single underscores may stand between digits. -/
def withoutUnderscores? (s : List Char) : Option (List Char) :=
  match s with
  | [] => none
  | ['_'] => none
  | [c] => some [c]
  | '_' :: _ => none
  | c :: '_' :: rest => if rest = [] then none else (withoutUnderscores? rest).map (c :: ·)
  | c :: rest => (withoutUnderscores? rest).map (c :: ·)

/-- The number that digits of a base denote. -/
def numeral? (base : Nat) (digits : List Char) : Option Nat :=
  digits.foldlM (fun n c => do
    let d ← Json.hexValue? c
    if d < base then some (base * n + d) else none) 0

/-- An integer of 64 bits with a sign. -/
def integerNode? (n : Int) : Option Node :=
  if Word64.fitsSigned n then some (.integer n) else none

/-- A decimal integer without leading zeros. -/
def decimal? (negative : Bool) (s : List Char) : Option Node := do
  let digits ← withoutUnderscores? s
  if digits.head? = some '0' ∧ digits.length ≠ 1 then none
  let n ← numeral? 10 digits
  integerNode? (if negative then -n else n)

/-- An integer in another base. -/
def based? (base : Nat) (s : List Char) : Option Node := do
  let digits ← withoutUnderscores? s
  integerNode? (← numeral? base digits)

/-- An integer as it is written. -/
def integer? : List Char → Option Node
  | '0' :: 'x' :: s => based? 16 s
  | '0' :: 'o' :: s => based? 8 s
  | '0' :: 'b' :: s => based? 2 s
  | '-' :: s => decimal? true s
  | '+' :: s => decimal? false s
  | s => decimal? false s

/-- Characters of a number or a word. -/
def isWordChar (c : Char) : Bool :=
  c.isAlphanum || c = '_' || c = '-' || c = '+' || c = '.' || c = ':'

/-- A number or a boolean. -/
def word? (s : List Char) : Option (Node × List Char) :=
  let rest := s.dropWhile isWordChar
  match s.takeWhile isWordChar with
  | ['t', 'r', 'u', 'e'] => some (.boolean true, rest)
  | ['f', 'a', 'l', 's', 'e'] => some (.boolean false, rest)
  | word => (integer? word).map fun n => (n, rest)

/-! ## Values -/

/-- The items of an array up to its closing bracket. Lines may end between them, and a comma may stand
behind the last one. -/
def arrayItems? (value? : List Char → Option (Node × List Char)) (s : List Char) :
    Option (List Node × List Char) := do
  match ← skipLines? false s with
  | ']' :: rest => some ([], rest)
  | start =>
    let (v, rest) ← value? start
    match ← skipLines? false rest with
    | ']' :: rest => some ([v], rest)
    | ',' :: rest =>
      if rest.length < s.length then
        let (vs, rest) ← arrayItems? value? rest
        some (v :: vs, rest)
      else
        none
    | _ => none
termination_by s.length

/-- The deepest nesting of arrays and inline tables, and the greatest number of segments of a key. -/
def maxDepth : Nat := 79

/-- A key that is not too deep, as its segments in front of the last one and the last one. -/
def placedKey? (s : List Char) : Option ((List String × String) × List Char) := do
  let (path, rest) ← key? s
  if maxDepth < path.length then none
  else return ((path.dropLast, ← path.getLast?), rest)

/-- A key, an equals sign and a value. -/
def pair? (value? : List Char → Option (Node × List Char)) (s : List Char) :
    Option ((List String × String × Node) × List Char) := do
  let ((path, key), rest) ← placedKey? s
  match rest with
  | '=' :: rest =>
    let (v, rest) ← value? (skipSpace rest)
    some ((path, key, v), rest)
  | _ => none

/-- The pairs of an inline table up to its closing brace, at least one, all on one line. -/
def inlinePairs? (value? : List Char → Option (Node × List Char)) (s : List Char) :
    Option (List (List String × String × Node) × List Char) := do
  let (p, rest) ← pair? value? (skipSpace s)
  match skipSpace rest with
  | '}' :: rest => some ([p], rest)
  | ',' :: rest =>
    if rest.length < s.length then
      let (ps, rest) ← inlinePairs? value? rest
      some (p :: ps, rest)
    else
      none
  | _ => none
termination_by s.length

/-- An inline table behind its opening brace. -/
def inlineTable? (value? : List Char → Option (Node × List Char)) (s : List Char) :
    Option (Node × List Char) := do
  let (pairs, rest) ← match skipSpace s with
    | '}' :: rest => some ([], rest)
    | s => inlinePairs? value? s
  return (.table .inline (← inlineEntries pairs), rest)

/-- A value in which arrays and inline tables nest at most so deep. -/
def value? : (depth : Nat) → List Char → Option (Node × List Char)
  | _, '"' :: rest => (basicString? rest).map fun (t, rest) => (.string (String.ofList t), rest)
  | _, '\'' :: rest => (literalString? rest).map fun (t, rest) => (.string (String.ofList t), rest)
  | depth + 1, '[' :: rest =>
    (arrayItems? (value? depth) rest).map fun (vs, rest) => (.array vs, rest)
  | depth + 1, '{' :: rest => inlineTable? (value? depth) rest
  | _, s => word? s

/-! ## Documents -/

/-- A header behind its opening brackets. -/
def header? (close : List Char) (s : List Char) :
    Option ((List String × String) × List Char) := do
  let (place, rest) ← placedKey? (skipSpace s)
  let rest ← close.isPrefixOf? rest
  return (place, rest)

/-- What a line holds behind its leading blanks. -/
def line? (s : List Char) : Option (Line × List Char) :=
  match s with
  | '[' :: '[' :: rest => (header? [']', ']'] rest).map fun ((path, key), rest) => (.arrayHeader path key, rest)
  | '[' :: rest => (header? [']'] rest).map fun ((path, key), rest) => (.header path key, rest)
  | s => (pair? (value? maxDepth) s).map fun ((path, key, v), rest) => (.pair path key v, rest)

/-- The lines of a document. -/
def lines? (s : List Char) : Option (List Line) := do
  match ← skipLines? false s with
  | [] => some []
  | start =>
    let (l, rest) ← line? start
    if endsLine rest ∧ rest.length < s.length then
      let ls ← lines? rest
      some (l :: ls)
    else
      none
termination_by s.length

/-- The table that a document describes. -/
def parse? (text : String) : Option Entries :=
  let characters := match text.toList with
    | '\uFEFF' :: rest => rest
    | s => s
  (lines? characters).bind (assemble [] [])

end Toml

end SchemaCompiler
