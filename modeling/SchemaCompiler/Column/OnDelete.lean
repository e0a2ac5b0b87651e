import SchemaCompiler.Column.Basic
import SchemaCompiler.Text.Split

/-!
# Reading delete actions

A document may write an action in any letter case and with any blanks around and between its words.
-/

namespace SchemaCompiler

/-- The words of an action in upper case with one blank between them. -/
def OnDelete.normalize (text : String) : String :=
  Text.asciiUpper (" ".intercalate (Text.words text))

/-- The action that a text names. -/
def OnDelete.ofText? (text : String) : Option OnDelete :=
  all.find? (·.sql = normalize text)

end SchemaCompiler
