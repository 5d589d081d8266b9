import StackBackend.Library

/-!
# Values and the heap

Values sit on operand stacks and in local slots.  Raw machine integers are kept apart from boxed
ones, so a boxed truth value and a bare `1` differ.  Objects live on the heap and are referred to
by address; texts cannot change, so they carry their content along with an identity of their own.

- `Value`, `Obj`, `Heap` are the data, `Heap.alloc` and `Heap.newText` make new identities;
- `Heap.items?` reads the items of a list or array, `Heap.unwraps` says whether this comes to an
  end;
- `Value.same` is identity, `Heap.equal?` compares lists by contents;
- `Heap.typeName` and `Heap.textOf?` are the texts of a value.

A list can be made to contain itself.  Such a list has no finite text, and a comparison with it need
not come to an end.  `textOf?` and `equal?` follow references to a depth and give no answer beyond
it.  The depth is one that no value with an answer exceeds: the objects on the way down are
distinct, and so are the pairs of objects on the way down in two values.
-/

namespace StackBackend

inductive Value where
  | null
  /-- A raw machine integer, also zero or one for a raw truth value. -/
  | raw (value : Int32)
  /-- A boxed integer. -/
  | integer (value : Int32)
  /-- A boxed truth value. -/
  | boolean (value : Bool)
  /-- A text and its identity. -/
  | text (ident : Nat) (content : String)
  /-- The stream that lines are printed to. -/
  | console
    | ref (address : Nat)
deriving DecidableEq, Inhabited

inductive Obj where
  /-- Made, but not yet initialized by a constructor. -/
  | uninit (owner : String)
  | array (items : Array Value)
  /-- A list: a wrapper around the array that holds its items. -/
  | list (backing : Value)
  /-- A function pointer: the receiver and the method to call on it. -/
  | closure (receiver : Value) (method : String)
  /-- An instance of the running class. -/
  | inst (owner : String)
deriving DecidableEq, Inhabited

/-- All objects, and how many texts have been made. -/
structure Heap where
  objects : Array Obj := #[]
  texts : Nat := 0
deriving DecidableEq, Inhabited

namespace Heap

def get? (h : Heap) (address : Nat) : Option Obj := h.objects[address]?

def set (h : Heap) (address : Nat) (obj : Obj) : Heap :=
  { h with objects := h.objects.setIfInBounds address obj }

def alloc (h : Heap) (obj : Obj) : Value × Heap :=
  (.ref h.objects.size, { h with objects := h.objects.push obj })

def newText (h : Heap) (content : String) : Value × Heap :=
  (.text h.texts content, { h with texts := h.texts + 1 })

/-- The object a value refers to. -/
def object? (h : Heap) : Value → Option Obj
  | .ref address => h.get? address
  | _ => none

/-! ## Items -/

/-- The items of an array, or of a list behind at most `wrappers` wrappers. -/
def itemsWithin (h : Heap) : (wrappers : Nat) → Value → Option (Array Value)
  | wrappers, v =>
    match h.object? v with
    | some (.array items) => some items
    | some (.list backing) =>
      match wrappers with
      | 0 => none
      | wrappers + 1 => h.itemsWithin wrappers backing
    | _ => none

/-- The items of a list or an array.  Wrappers are distinct objects, so there are no more of them
than objects. -/
def items? (h : Heap) (v : Value) : Option (Array Value) :=
  h.itemsWithin h.objects.size v

/-- Whether there is something else behind at most `wrappers` wrappers. -/
def unwrapsWithin (h : Heap) : (wrappers : Nat) → Value → Bool
  | wrappers, v =>
    match h.object? v with
    | some (.list backing) =>
      match wrappers with
      | 0 => false
      | wrappers + 1 => h.unwrapsWithin wrappers backing
    | _ => true

/-- Whether the wrappers of a value come to an end. -/
def unwraps (h : Heap) (v : Value) : Bool :=
  h.unwrapsWithin h.objects.size v

/-! ## Texts -/

/-- The name of an object's type. -/
def objectTypeName : Obj → String
  | .uninit owner => "uninitialized " ++ owner
  | .array _ => ClassName.array
  | .list _ => ClassName.list
  | .closure _ _ => ClassName.closure
  | .inst owner => owner

/-- The name of a value's type, as messages show it. -/
def typeName (h : Heap) : Value → String
  | .null => "null"
  | .raw _ => "int"
  | .integer _ => ClassName.integer
  | .boolean _ => ClassName.boolean
  | .text _ _ => ClassName.string
  | .console => ClassName.console
  | .ref address =>
    match h.get? address with
    | some obj => objectTypeName obj
    | none => "?"

/-- The printed form of an object that has no items. -/
def objectText : Obj → String
  | .closure _ method => "Fptr(" ++ method ++ ")"
  | .inst owner => owner ++ "@instance"
  | .uninit owner => owner ++ "@uninit"
  | _ => "?"

/-- The printed form of a value, following references to a depth; none if that is not enough. -/
def textWithin (h : Heap) : (depth : Nat) → Value → Option String
  | _, .null => some "null"
  | _, .raw value => some (toString value.toInt)
  | _, .integer value => some (toString value.toInt)
  | _, .boolean value => some (toString value)
  | _, .text _ content => some content
  | _, .console => some "java.io.PrintStream"
  | 0, .ref _ => none
  | depth + 1, .ref address =>
    if h.unwraps (.ref address) then
      match h.items? (.ref address) with
      | some items => do
        let texts ← items.toList.mapM (h.textWithin depth)
        some ("[" ++ ", ".intercalate texts ++ "]")
      | none => some ((h.get? address).elim "?" objectText)
    else none

/-- The printed form of a value, if it has one: `[a, b]` for lists and arrays. -/
def textOf? (h : Heap) (v : Value) : Option String :=
  h.textWithin (h.objects.size + 1) v

end Heap

/-! ## Identity and equality -/

/-- Whether two values are the same object.  Boxed numbers and truth values have no identity apart
from their value; raw integers are not objects at all. -/
def Value.same : Value → Value → Bool
  | null, null => true
  | ref a, ref b => a = b
  | text a _, text b _ => a = b
  | console, console => true
  | integer a, integer b => a = b
  | boolean a, boolean b => a = b
  | _, _ => false

namespace Heap

/-- Whether two lists of values of one length agree under a test, item by item, up to the first
difference. -/
def agree? (test : Value → Value → Option Bool) : List Value → List Value → Option Bool
  | a :: as, b :: bs => do if ← test a b then agree? test as bs else some false
  | _, _ => some true

/-- Equality of values, following references to a depth; none if that is not enough. -/
def equalWithin (h : Heap) : (depth : Nat) → Value → Value → Option Bool
  | _, .raw a, .raw b => some (a = b)
  | _, .text _ a, .text _ b => some (a = b)
  | 0, .ref a, .ref b => if a = b then some true else none
  | depth + 1, .ref a, .ref b =>
    if a = b then some true
    else if h.unwraps (.ref a) && h.unwraps (.ref b) then
      match h.items? (.ref a), h.items? (.ref b) with
      | some as, some bs =>
        if as.size = bs.size then agree? (h.equalWithin depth) as.toList bs.toList else some false
      | _, _ => some false
    else none
  | _, a, b => some (a.same b)

/-- Equality of values, if the comparison comes to an end: texts and lists by content, other objects
by identity. -/
def equal? (h : Heap) (a b : Value) : Option Bool :=
  h.equalWithin (h.objects.size * h.objects.size + 1) a b

end Heap

end StackBackend
