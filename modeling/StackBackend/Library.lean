import StackBackend.Assembly.Instruction
import StackBackend.Ty

/-!
# The library that emitted code links against

Emitted code works on boxed values: integers, truth values and texts are objects of library
classes, lists are wrappers over growable arrays, and function pointers pair a receiver with a
method name.  This module names those classes and methods and gives the short sequences that box,
unbox and cast a value of a given type.

- `LibraryMethod` lists every method that emitted code calls, `LibraryMethod.ref` is its operand;
- `LibraryMethod.resolve?` finds the method an operand names;
- `Ty.descriptor`, `methodDescriptor`, `Ty.boxedClass?` spell types;
- `boxing`, `unboxing`, `downcast` are the sequences.
-/

namespace StackBackend

namespace ClassName

def object : String := "java/lang/Object"
def integer : String := "java/lang/Integer"
def boolean : String := "java/lang/Boolean"
def string : String := "java/lang/String"
def array : String := "java/util/ArrayList"
def list : String := "List"
def closure : String := "Fptr"
def console : String := "java/io/PrintStream"
def system : String := "java/lang/System"

end ClassName

/-- The name of constructors. -/
def constructorName : String := "<init>"

/-- What a print method takes: a raw integer, a raw truth value, a text, or any object. -/
inductive Printed where
  | int | bool | text | object
deriving DecidableEq, Inhabited

namespace Printed

/-- The descriptor of the print method. -/
def descriptor : Printed → String
  | int => "(I)V"
  | bool => "(Z)V"
  | text => "(Ljava/lang/String;)V"
  | object => "(Ljava/lang/Object;)V"

/-- The print method of a descriptor.  One that is not known prints its argument as an object. -/
def ofDescriptor (descriptor : String) : Printed :=
  if descriptor = int.descriptor then int
  else if descriptor = bool.descriptor then bool
  else if descriptor = text.descriptor then text
  else object

end Printed

/-- A method of the library. -/
inductive LibraryMethod where
  | objectInit
  | integerValueOf
  | booleanValueOf
  | intValue
  | booleanValue
  | stringLength
  | stringSubstring
  | stringEquals
  | arrayInit
  | arrayAdd
  /-- Wrap an array, sharing it. -/
  | listInit
  /-- Wrap a copy of another list's items. -/
  | listCopy
  | listGet
  | listSet
  | listSize
  | closureInit
  | closureInvoke
  | println (what : Printed)
deriving DecidableEq, Inhabited

namespace LibraryMethod

/-- The operand that names a method. -/
def ref : LibraryMethod → MethodRef
  | objectInit => ⟨ClassName.object, constructorName, "()V"⟩
  | integerValueOf => ⟨ClassName.integer, "valueOf", "(I)Ljava/lang/Integer;"⟩
  | booleanValueOf => ⟨ClassName.boolean, "valueOf", "(Z)Ljava/lang/Boolean;"⟩
  | intValue => ⟨ClassName.integer, "intValue", "()I"⟩
  | booleanValue => ⟨ClassName.boolean, "booleanValue", "()Z"⟩
  | stringLength => ⟨ClassName.string, "length", "()I"⟩
  | stringSubstring => ⟨ClassName.string, "substring", "(II)Ljava/lang/String;"⟩
  | stringEquals => ⟨ClassName.string, "equals", "(Ljava/lang/Object;)Z"⟩
  | arrayInit => ⟨ClassName.array, constructorName, "()V"⟩
  | arrayAdd => ⟨ClassName.array, "add", "(Ljava/lang/Object;)Z"⟩
  | listInit => ⟨ClassName.list, constructorName, "(Ljava/util/ArrayList;)V"⟩
  | listCopy => ⟨ClassName.list, constructorName, "(LList;)V"⟩
  | listGet => ⟨ClassName.list, "getElement", "(I)Ljava/lang/Object;"⟩
  | listSet => ⟨ClassName.list, "setElement", "(ILjava/lang/Object;)V"⟩
  | listSize => ⟨ClassName.list, "getSize", "()I"⟩
  | closureInit => ⟨ClassName.closure, constructorName, "(Ljava/lang/Object;Ljava/lang/String;)V"⟩
  | closureInvoke => ⟨ClassName.closure, "invoke", "(Ljava/util/ArrayList;)Ljava/lang/Object;"⟩
  | println what => ⟨ClassName.console, "println", what.descriptor⟩

/-- The methods other than printing. -/
def unprinting : List LibraryMethod :=
  [integerValueOf, intValue, booleanValueOf, booleanValue, arrayAdd, closureInvoke, listGet,
   listSet, listSize, listInit, listCopy, closureInit, arrayInit, objectInit, stringEquals,
   stringLength, stringSubstring]

/-- The method an operand names.  Printing accepts every descriptor, the other methods their own
alone. -/
def resolve? (m : MethodRef) : Option LibraryMethod :=
  if m.owner = ClassName.console ∧ m.name = "println" then
    some (println (.ofDescriptor m.descriptor))
  else unprinting.find? (·.ref = m)

/-- An operand of the library names the method it came from. -/
theorem resolve?_ref (m : LibraryMethod) : resolve? m.ref = some m := by
  cases m with
  | println what => cases what <;> rfl
  | _ => rfl

end LibraryMethod

/-- The field holding the console. -/
def consoleField : FieldRef := ⟨ClassName.system, "out", "Ljava/io/PrintStream;"⟩

/-! ## Types -/

/-- The descriptor of a value of a type. -/
def Ty.descriptor : Ty → String
  | int => "Ljava/lang/Integer;"
  | bool => "Ljava/lang/Boolean;"
  | string => "Ljava/lang/String;"
  | list _ => "LList;"
  | fptr _ _ => "LFptr;"
  | void => "V"

/-- The descriptor of a method. -/
def methodDescriptor (args : List Ty) (ret : Ty) : String :=
  "(" ++ String.join (args.map Ty.descriptor) ++ ")" ++ ret.descriptor

/-- The class of boxed values of a type. -/
def Ty.boxedClass? : Ty → Option String
  | int => some ClassName.integer
  | bool => some ClassName.boolean
  | string => some ClassName.string
  | list _ => some ClassName.list
  | fptr _ _ => some ClassName.closure
  | void => none

/-! ## Boxing -/

namespace Instruction

/-- Call a library method on a receiver. -/
def callVirtual (m : LibraryMethod) : Instruction := invoke .virtual m.ref

/-- Call a library constructor. -/
def construct (m : LibraryMethod) : Instruction := invoke .special m.ref

/-- Call a library method that has no receiver. -/
def callStatic (m : LibraryMethod) : Instruction := invoke .static m.ref

end Instruction

/-- Box the raw value on top of the stack. -/
def boxing : Ty → List Instruction
  | .int => [.callStatic .integerValueOf]
  | .bool => [.callStatic .booleanValueOf]
  | _ => []

/-- Unbox the value on top of the stack; references are left as they are. -/
def unboxing : Ty → List Instruction
  | .int => [.callVirtual .intValue]
  | .bool => [.callVirtual .booleanValue]
  | _ => []

/-- Check the class of the reference on top of the stack. -/
def downcast (ty : Ty) : List Instruction :=
  match ty.boxedClass? with
  | some owner => [.cast owner]
  | none => []

end StackBackend
