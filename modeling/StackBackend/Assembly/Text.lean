import StackBackend.Assembly.ClassFile

/-!
# Assembly text

The written form of a class.  Directives stand at the start of a line, label definitions behind
one tab, all other instructions behind two; a blank line follows the header and each method.

- `Instruction.line`, `Method.lines`, `ClassFile.lines` are the lines, `Assembly.render` joins them;
- `Sink` is a place to write to that may refuse text beyond a number of bytes.
-/

namespace StackBackend

/-- The line of an instruction. -/
def Instruction.line (i : Instruction) : String :=
  if i.isLabel then "\t" ++ i.text else "\t\t" ++ i.text

/-- The lines of a method. -/
def Method.lines (m : Method) : List String :=
  [".method public " ++ (if m.isStatic then "static " else "") ++ m.name ++ m.descriptor,
   ".limit stack " ++ toString m.stackLimit,
   ".limit locals " ++ toString m.localsLimit]
  ++ m.code.toList.map Instruction.line
  ++ [".end method", ""]

namespace ClassFile

/-- The lines in front of the methods. -/
def headerLines (name superName : String) : List String :=
  [".class public " ++ name, ".super " ++ superName, ""]

/-- The lines of a class. -/
def lines (c : ClassFile) : List String :=
  headerLines c.name c.superName ++ c.methods.flatMap Method.lines

end ClassFile

namespace Assembly

/-- Text of lines, each ended by a newline. -/
def render (lines : List String) : String :=
  lines.foldl (fun text line => text ++ line ++ "\n") ""

end Assembly

/-- The written form of a class. -/
def ClassFile.text (c : ClassFile) : String := Assembly.render c.lines

/-! ## Writing -/

/-- A place to write to, which may take only so many bytes. -/
structure Sink where
  capacity : Option Nat := none
  text : String := ""

/-- The text of a refusal. -/
def Sink.closed : String := "closed"

/-- Write text, unless the total would exceed what the sink takes. -/
def Sink.write? (s : Sink) (text : String) : Option Sink :=
  let total := s.text ++ text
  match s.capacity with
  | some capacity => if total.utf8ByteSize ≤ capacity then some { s with text := total } else none
  | none => some { s with text := total }

end StackBackend
