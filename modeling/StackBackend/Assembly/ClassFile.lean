import StackBackend.Assembly.Instruction

/-!
# Classes

The unit of output: a class with its methods in emission order.
-/

namespace StackBackend

/-- A method: header, declared limits and body. -/
structure Method where
  name : String
  descriptor : String
  isStatic : Bool := false
  stackLimit : Nat := 128
  localsLimit : Nat := 128
  code : Code
deriving DecidableEq, Inhabited

structure ClassFile where
  name : String
  superName : String
  methods : List Method := []
deriving DecidableEq, Inhabited

/-- The first method of a name.  Names are not overloaded, so the name is enough. -/
def ClassFile.method? (c : ClassFile) (name : String) : Option Method :=
  c.methods.find? (·.name == name)

end StackBackend
