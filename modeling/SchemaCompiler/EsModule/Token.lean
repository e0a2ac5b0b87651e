import SchemaCompiler.Json.Quoted

/-!
# Tokens of module text

Module text falls into words, strings, whole numbers and punctuators, with blanks between them where
nothing else keeps them apart. Words are those of ASCII letters, digits, dollars and underscores; other
text is not read.
-/

namespace SchemaCompiler

namespace EsModule

inductive Token
  | word (s : String)
  | string (s : String)
  | number (n : Nat)
  | punctuator (c : Char)
deriving DecidableEq, Repr

namespace Token

/-- Whether a character may stand first in a word. -/
def startsWord (c : Char) : Bool :=
  c.isAlpha || c = '_' || c = '$'

/-- Whether a character belongs to the word or number in front of it. -/
def continuesWord (c : Char) : Bool :=
  startsWord c || c.isDigit

/-- Whether a character may stand between tokens. -/
def isBlank (c : Char) : Bool :=
  c = ' ' || c = '\t' || c = '\n' || c = '\r'

/-- The punctuators, each of one character. -/
def punctuators : List Char :=
  ['=', '.', ',', ':', ';', '-', '(', ')', '[', ']', '{', '}']

/-- The number that digits denote. Other characters are refused, and a zero in front of other digits. -/
def number? (digits : List Char) : Option Nat :=
  if digits.all Char.isDigit ∧ (digits.head? = some '0' → digits = ['0']) then
    some (Nat.ofDigitChars 10 digits 0)
  else none

/-- The tokens of a text. -/
def lex : List Char → Option (List Token)
  | [] => some []
  | c :: s =>
    if isBlank c then lex s
    else if c = '"' then
      match _h : Json.scanQuoted? s with
      | none => none
      | some (t, rest) => (lex rest).map (.string t :: ·)
    else if startsWord c then
      (lex (s.dropWhile continuesWord)).map
        (.word (String.ofList (c :: s.takeWhile continuesWord)) :: ·)
    else if c.isDigit then
      match number? (c :: s.takeWhile continuesWord) with
      | none => none
      | some n => (lex (s.dropWhile continuesWord)).map (.number n :: ·)
    else if c ∈ punctuators then (lex s).map (.punctuator c :: ·)
    else none
termination_by s => s.length
decreasing_by
  · simp
  · have := Json.length_lt_of_scanQuoted? _h
    simp only [List.length_cons]
    omega
  · have := (List.dropWhile_suffix (l := s) continuesWord).length_le
    simp only [List.length_cons]
    omega
  · have := (List.dropWhile_suffix (l := s) continuesWord).length_le
    simp only [List.length_cons]
    omega
  · simp

end Token

end EsModule

end SchemaCompiler
