import SchemaCompiler.Json.Quoted
import SchemaCompiler.Json.Scaling

/-!
# Reading JSON

A text is one value, with blanks around it and between tokens and nothing else. Arrays and objects nest
at most `maxDepth` deep, counted from the outermost; of a repeated key the last value counts. Every step
gives what stands behind it together with a proof that something was consumed.
-/

namespace SchemaCompiler

namespace Json

/-- The deepest nesting that a text may have. -/
def maxDepth : Nat := 127

/-- A text strictly shorter than `s`. -/
abbrev Rest (s : List Char) : Type :=
  { rest : List Char // rest.length < s.length }

/-- The four characters that may stand between tokens. -/
def isBlank (c : Char) : Bool :=
  c = ' ' || c = '\t' || c = '\n' || c = '\r'

/-- What stands behind the blanks in front of a text. -/
def skipBlanks (s : List Char) : List Char :=
  s.dropWhile isBlank

theorem length_skipBlanks_le (s : List Char) : (skipBlanks s).length ≤ s.length :=
  (List.dropWhile_suffix (l := s) isBlank).length_le

/-- A result for the text behind the blanks is a result for the whole text. -/
def afterBlanks {α : Type} (s : List Char) (r : Option (α × Rest (skipBlanks s))) :
    Option (α × Rest s) :=
  r.map fun (a, rest) => (a, ⟨rest.1, Nat.lt_of_lt_of_le rest.2 (length_skipBlanks_le s)⟩)

/-- A value that is neither an array nor an object. -/
def scalar? [RealReader] (s : List Char) : Option (Json × Rest s) :=
  match s with
  | 'n' :: 'u' :: 'l' :: 'l' :: rest => some (.null, ⟨rest, by simp only [List.length_cons]; omega⟩)
  | 't' :: 'r' :: 'u' :: 'e' :: rest =>
    some (.bool true, ⟨rest, by simp only [List.length_cons]; omega⟩)
  | 'f' :: 'a' :: 'l' :: 's' :: 'e' :: rest =>
    some (.bool false, ⟨rest, by simp only [List.length_cons]; omega⟩)
  | '"' :: tail =>
    match h : scanQuoted? tail with
    | none => none
    | some (t, rest) =>
      some (.string t, ⟨rest, by
        have := length_lt_of_scanQuoted? h
        simp only [List.length_cons]
        omega⟩)
  | s =>
    match h : scanNumber? s with
    | none => none
    | some (n, rest) => some (.number n, ⟨rest, length_lt_of_scanNumber? h⟩)

/-- One or more items with commas between them, up to a closing character. -/
def sequence? {α : Type} (close : Char) (item? : (s : List Char) → Option (α × Rest s))
    (s : List Char) : Option (List α × Rest s) :=
  match item? s with
  | none => none
  | some (a, ⟨r, hr⟩) =>
    match hb : skipBlanks r with
    | [] => none
    | c :: t =>
      have ht : t.length < s.length := by
        have := length_skipBlanks_le r
        simp only [hb, List.length_cons] at this
        omega
      if c = ',' then
        match sequence? close item? t with
        | none => none
        | some (as, ⟨rest, h⟩) => some (a :: as, ⟨rest, Nat.lt_trans h ht⟩)
      else if c = close then some ([a], ⟨t, ht⟩)
      else none
termination_by s.length

/-- What stands in brackets or braces behind the opening one: nothing, or a sequence of items. -/
def enclosed? {α : Type} (close : Char) (item? : (s : List Char) → Option (α × Rest s))
    (s : List Char) : Option (List α × Rest s) :=
  match h : skipBlanks s with
  | [] => none
  | c :: t =>
    if c = close then
      some ([], ⟨t, by
        have := length_skipBlanks_le s
        simp only [h, List.length_cons] at this
        omega⟩)
    else sequence? close item? s

/-- A key, a colon and a value. -/
def member? (value? : (s : List Char) → Option (Json × Rest s)) (s : List Char) :
    Option ((String × Json) × Rest s) :=
  match hb : skipBlanks s with
  | '"' :: tail =>
    match hq : scanQuoted? tail with
    | none => none
    | some (key, r) =>
      match hc : skipBlanks r with
      | ':' :: t =>
        match value? t with
        | none => none
        | some (v, ⟨rest, h⟩) =>
          some ((key, v), ⟨rest, by
            have h₁ := length_skipBlanks_le s
            have h₂ := length_lt_of_scanQuoted? hq
            have h₃ := length_skipBlanks_le r
            simp only [hb, hc, List.length_cons] at h₁ h₃
            omega⟩)
      | _ => none
  | _ => none

/-- A result behind one more character is a result for the whole text. -/
def afterChar {α : Type} (c : Char) (s : List Char) (r : Option (α × Rest s)) :
    Option (α × Rest (c :: s)) :=
  r.map fun (a, rest) => (a, ⟨rest.1, Nat.lt_succ_of_lt rest.2⟩)

/-- A value whose items and members are read by `value?`. -/
def container? [RealReader] (value? : (s : List Char) → Option (Json × Rest s)) (s : List Char) :
    Option (Json × Rest s) :=
  match s with
  | '[' :: t => afterChar '[' t ((enclosed? ']' value? t).map fun (vs, r) => (.array vs, r))
  | '{' :: t =>
    afterChar '{' t
      ((enclosed? '}' (member? value?) t).map fun (ms, r) => (.object (collectMembers ms), r))
  | s => scalar? s

/-- A value, with blanks in front of it, in which arrays and objects nest at most `depth` deep. -/
def value? [RealReader] : (depth : Nat) → (s : List Char) → Option (Json × Rest s)
  | 0, s => afterBlanks s (scalar? (skipBlanks s))
  | depth + 1, s => afterBlanks s (container? (value? depth) (skipBlanks s))

/-- Reads a text that is one value. -/
def parse? [RealReader] (text : String) : Option Json :=
  match value? maxDepth text.toList with
  | none => none
  | some (v, rest) => if skipBlanks rest.1 = [] then some v else none

end Json

end SchemaCompiler
