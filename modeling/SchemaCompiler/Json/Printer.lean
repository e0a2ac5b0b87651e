import SchemaCompiler.Json.Number
import SchemaCompiler.Json.Quoted

/-!
# Writing JSON

A layout says what stands between the tokens of a text. `compact` puts nothing there; `indented` gives
every item and member a line of its own, two blanks deeper than its container.
-/

namespace SchemaCompiler

namespace Json

/-- What stands between tokens: the break in front of an item at a level, and the gap after a colon. -/
structure Layout where
  lineBreak : (level : Nat) → List Char
  gap : List Char

/-- No space anywhere. -/
def Layout.tight : Layout := ⟨fun _ => [], []⟩

/-- One line for each item and member, two blanks for each level. -/
def Layout.indented : Layout := ⟨fun level => '\n' :: List.replicate (2 * level) ' ', [' ']⟩

mutual

/-- The text of a value whose items stand at the level `level + 1`. -/
def chars (layout : Layout) (level : Nat) : Json → List Char
  | .null => ['n', 'u', 'l', 'l']
  | .bool true => ['t', 'r', 'u', 'e']
  | .bool false => ['f', 'a', 'l', 's', 'e']
  | .number n => n.chars
  | .string s => quotedChars s
  | .array [] => ['[', ']']
  | .array (v :: rest) =>
    '[' :: (layout.lineBreak (level + 1) ++ chars layout (level + 1) v ++
      itemsChars layout level rest)
  | .object [] => ['{', '}']
  | .object ((k, v) :: rest) =>
    '{' :: (layout.lineBreak (level + 1) ++ quotedChars k ++ ':' :: layout.gap ++
      chars layout (level + 1) v ++ membersChars layout level rest)

/-- The items after the first, and the closing bracket. -/
def itemsChars (layout : Layout) (level : Nat) : List Json → List Char
  | [] => layout.lineBreak level ++ [']']
  | v :: rest =>
    ',' :: (layout.lineBreak (level + 1) ++ chars layout (level + 1) v ++
      itemsChars layout level rest)

/-- The members after the first, and the closing brace. -/
def membersChars (layout : Layout) (level : Nat) : List (String × Json) → List Char
  | [] => layout.lineBreak level ++ ['}']
  | (k, v) :: rest =>
    ',' :: (layout.lineBreak (level + 1) ++ quotedChars k ++ ':' :: layout.gap ++
      chars layout (level + 1) v ++ membersChars layout level rest)

end

/-- The text of a value on one line, without spaces. -/
def compact (v : Json) : String :=
  String.ofList (v.chars .tight 0)

/-- The text of a value on indented lines. -/
def pretty (v : Json) : String :=
  String.ofList (v.chars .indented 0)

end Json

end SchemaCompiler
