import StackBackend.Document.Decode
import StackBackend.Json.Text

/-!
# Checked programs from text

A program file is a document as text.  Its arrays and objects nest at most 127 levels deep, those
excepted that stand under a name that no record has.
-/

namespace StackBackend.CheckedProgram

/-- How deep the arrays and objects of a program file may nest. -/
def maxNesting : Nat := 127

/-- The checked program of a text. -/
def ofText (text : String) : Except DecodeError CheckedProgram :=
  match Json.parse? maxNesting text with
  | some value => Document.readChecked true value.height value
  | none => .error .malformed

end StackBackend.CheckedProgram
