/-!
# Types of the checked language

Every expression of a checked program carries its static type.  There are two scalar types, text,
homogeneous lists, function pointers, and `void` for "no value".

- `Ty` is the type itself, `Ty.text` its spelling in error messages;
- `Ty.isPrimitive` picks out the types whose values are unboxed before arithmetic;
- equality of types is decidable (`Ty.beq` and `Ty.beq_iff`).

Function pointers hold a list of argument types, so functions on types come in pairs, one on types
and one on lists of types.
-/

namespace StackBackend

/-- A static type. -/
inductive Ty where
  | int
  | bool
  | string
  /-- Homogeneous lists. -/
  | list (element : Ty)
  /-- Function pointers of one signature. -/
  | fptr (args : List Ty) (ret : Ty)
  /-- No value: what a procedure returns, and what an expression of unknown type carries. -/
  | void
deriving Inhabited

namespace Ty

/-- Whether a value of this type is absent. -/
def isVoid : Ty → Bool
  | void => true
  | _ => false

/-- Whether values of this type are unboxed to raw machine integers for arithmetic and
comparison. -/
def isPrimitive : Ty → Bool
  | int => true
  | bool => true
  | _ => false

/-- Whether this is a list type. -/
def isList : Ty → Bool
  | list _ => true
  | _ => false

/-- Whether values of this type are compared by identity. -/
def isReference : Ty → Bool
  | list _ => true
  | fptr _ _ => true
  | _ => false

/-- Element type of a list type. -/
def element? : Ty → Option Ty
  | list element => some element
  | _ => none

/-! ## Text -/

mutual

/-- The spelling of a type in messages: `list(int)`, `fptr(int, bool -> void)`. -/
def text : Ty → String
  | int => "int"
  | bool => "bool"
  | string => "string"
  | list element => "list(" ++ element.text ++ ")"
  | fptr args ret => "fptr(" ++ ", ".intercalate (texts args) ++ " -> " ++ ret.text ++ ")"
  | void => "void"

/-- The spellings of a list of types. -/
def texts : List Ty → List String
  | [] => []
  | ty :: rest => ty.text :: texts rest

end

/-! ## Equality -/

mutual

/-- Equality of types, as a test. -/
def beq : Ty → Ty → Bool
  | int, int => true
  | bool, bool => true
  | string, string => true
  | list a, list b => a.beq b
  | fptr as a, fptr bs b => beqs as bs && a.beq b
  | void, void => true
  | _, _ => false

/-- Equality of lists of types, as a test. -/
def beqs : List Ty → List Ty → Bool
  | [], [] => true
  | a :: as, b :: bs => a.beq b && beqs as bs
  | _, _ => false

end

mutual

/-- The test decides equality. -/
theorem beq_iff (a b : Ty) : a.beq b = true ↔ a = b := by
  cases a <;> cases b <;> simp [beq]
  case list.list x y => exact beq_iff x y
  case fptr.fptr xs x ys y => rw [beq_iff x y, beqs_iff xs ys]

/-- The test on lists decides equality. -/
theorem beqs_iff (as bs : List Ty) : beqs as bs = true ↔ as = bs := by
  cases as <;> cases bs <;> simp [beqs]
  case cons.cons x xs y ys => rw [beq_iff x y, beqs_iff xs ys]

end

instance : DecidableEq Ty := fun a b => decidable_of_iff _ (beq_iff a b)

end Ty

end StackBackend
