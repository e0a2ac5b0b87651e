/-!
# Splitting text

Splitting at every character of a class, and the words between blanks. The blanks are the characters
that Unicode gives the property White_Space.
-/

namespace SchemaCompiler

namespace Text

/-- The pieces of a text between the characters of a class, which belong to no piece. -/
def splitBy (separates : Char → Bool) : List Char → List (List Char)
  | [] => [[]]
  | c :: rest =>
    if separates c then [] :: splitBy separates rest
    else match splitBy separates rest with
      | [] => [[c]]
      | piece :: pieces => (c :: piece) :: pieces

/-- The pieces of a string between dots. -/
def dotted (s : String) : List String :=
  (splitBy (· = '.') s.toList).map String.ofList

/-- The ranges of code points with the property White_Space. -/
def whiteSpaceRanges : List (Nat × Nat) :=
  [(0x09, 0x0D), (0x20, 0x20), (0x85, 0x85), (0xA0, 0xA0), (0x1680, 0x1680), (0x2000, 0x200A),
    (0x2028, 0x2029), (0x202F, 0x202F), (0x205F, 0x205F), (0x3000, 0x3000)]

/-- Whether a character has the property White_Space. -/
def isWhiteSpace (c : Char) : Bool :=
  whiteSpaceRanges.any fun (low, high) => low ≤ c.toNat && c.toNat ≤ high

/-- The words of a string, without the blanks around them. -/
def words (s : String) : List String :=
  ((splitBy isWhiteSpace s.toList).filter (· ≠ [])).map String.ofList

/-- The string with the ASCII letters in upper case. -/
def asciiUpper (s : String) : String :=
  String.ofList (s.toList.map Char.toUpper)

end Text

end SchemaCompiler
