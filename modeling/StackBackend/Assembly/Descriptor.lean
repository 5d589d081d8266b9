/-!
# Method descriptors

A descriptor spells a signature: parameters between parentheses, then the result.  A parameter is
one letter, or a class name between `L` and `;`, and `[` in front makes it an array.  The result
`V` means that nothing is returned.

- `Descriptor.arity` counts the parameters;
- `Descriptor.returnsValue` tells whether there is a result.

Both accept any text: what is not a descriptor has no parameters.
-/

namespace StackBackend.Descriptor

/-- Count parameters; `inName` says that a class name is being read. -/
def countParams : (inName : Bool) → List Char → Nat
  | _, [] => 0
  | false, '[' :: rest => countParams false rest
  | false, 'L' :: rest => countParams true rest + 1
  | false, _ :: rest => countParams false rest + 1
  | true, ';' :: rest => countParams false rest
  | true, _ :: rest => countParams true rest

/-- The parameters of a descriptor: what follows the opening parenthesis, up to the first closing
one. -/
def params : List Char → List Char
  | '(' :: rest => rest.takeWhile (· != ')')
  | _ => []

/-- Number of parameters; a receiver is not counted. -/
def arity (descriptor : String) : Nat :=
  countParams false (params descriptor.toList)

/-- Whether a result is returned: the descriptor does not end in `)V`. -/
def returnsValue (descriptor : String) : Bool :=
  !([')', 'V'].isSuffixOf descriptor.toList)

end StackBackend.Descriptor
