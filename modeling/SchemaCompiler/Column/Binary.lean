/-!
# Byte literals

A byte string is written with hexadecimal digits of either case, two for each byte, as `X'..'`, `x'..'`
or `0x..`. The empty literal is written as nothing or as two quotes.
-/

namespace SchemaCompiler

namespace ByteLiteral

/-- Whether a character is a hexadecimal digit of either case. -/
def isHexDigit (c : Char) : Bool :=
  ('0' ≤ c && c ≤ '9') || ('a' ≤ c && c ≤ 'f') || ('A' ≤ c && c ≤ 'F')

/-- What stands in front of a closing quote. -/
def beforeQuote? (s : List Char) : Option (List Char) :=
  if s.getLast? = some '\'' then some s.dropLast else none

/-- The part of a literal that holds its digits. -/
def body? : List Char → Option (List Char)
  | '0' :: 'x' :: rest => some rest
  | 'X' :: '\'' :: rest => beforeQuote? rest
  | 'x' :: '\'' :: rest => beforeQuote? rest
  | _ => none

/-- The digits of a literal in upper case; there are none unless they come in pairs. -/
def digits? (literal : String) : Option String := do
  let body ← body? literal.toList
  if body.length % 2 = 0 ∧ body.all isHexDigit then
    return String.ofList (body.map Char.toUpper)
  else
    none

/-- Whether a literal is one of the two spellings of the empty literal. -/
def isEmpty (literal : String) : Bool :=
  literal = "" || literal = "''"

/-- How many bytes digits stand for. -/
def size (digits : String) : Nat :=
  digits.length / 2

end ByteLiteral

end SchemaCompiler
