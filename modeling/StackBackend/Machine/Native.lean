import StackBackend.Machine.Fault
import StackBackend.Machine.Heap

/-!
# What library methods do

Each method of the library is a function on the heap.  `LibraryMethod.perform` takes the receiver
and the arguments of a call and says how the machine goes on: with a result, with a line to print,
or with a call of a method of the running class.  A call that fails leaves the heap as it was.

- `Heap.construct` is what a constructor does: an object that is not initialized becomes one that
  is, in place;
- `Heap.backing` is the array behind a list, `Heap.listItems` the items of a list or array;
- `LibraryMethod.perform` is the behaviour of every method;
- `Heap.checkCast` and `readStatic` serve the two remaining instructions that look at the library.

Missing arguments count as `null`: the machine passes as many as a descriptor declares, which need
not be as many as a method uses.
-/

namespace StackBackend

namespace Heap

/-- A value of the wrong type. -/
def mismatch (h : Heap) (expected : String) (found : Value) : Fault :=
  .typeMismatch expected (h.typeName found)

/-- The address and object of a reference; `place` names where a missing one is reported. -/
def dereference (h : Heap) (v : Value) (place : String) : Except Fault (Nat × Obj) :=
  match v with
  | .ref address =>
    match h.get? address with
    | some obj => .ok (address, obj)
    | none => .error (h.mismatch "object reference" v)
  | .null => .error (.nullReference place)
  | _ => .error (h.mismatch "object reference" v)

/-- Run a constructor: an object that is not initialized becomes `obj`, in place. -/
def construct (h : Heap) (this : Value) (obj : Obj) : Except Fault Heap :=
  match h.dereference this constructorName with
  | .error e => .error e
  | .ok (address, .uninit _) => .ok (h.set address obj)
  | .ok _ => .error (h.mismatch "uninitialized object" this)

/-- The address and items of the array behind a list. -/
def backing (h : Heap) (this : Value) : Except Fault (Nat × Array Value) :=
  match h.dereference this ClassName.list with
  | .error e => .error e
  | .ok (_, .list inner) =>
    match h.dereference inner ClassName.list with
    | .error e => .error e
    | .ok (address, .array items) => .ok (address, items)
    | .ok _ => .error (h.mismatch ClassName.array this)
  | .ok _ => .error (h.mismatch ClassName.list this)

/-- The items of a list or an array; `otherwise` is what to report for any other value.  Wrappers
without end are followed without end. -/
def listItems (h : Heap) (v : Value) (otherwise : Fault) : Except Fault (Array Value) :=
  if h.unwraps v then
    match h.items? v with
    | some items => .ok items
    | none => .error otherwise
  else .error .aborted

/-- A raw integer. -/
def rawInt (h : Heap) : Value → Except Fault Int32
  | .raw value => .ok value
  | other => .error (h.mismatch "int" other)

/-- The content of a text that a method is called on. -/
def receiverText (h : Heap) : Value → Except Fault String
  | .text _ content => .ok content
  | .null => .error (.nullReference "String")
  | other => .error (h.mismatch ClassName.string other)

/-- The place in an array that a raw integer names. -/
def position (items : Array Value) (index : Int32) : Except Fault Nat :=
  if index < 0 then .error (.indexOutOfBounds index items.size)
  else if index.toInt.toNat < items.size then .ok index.toInt.toNat
  else .error (.indexOutOfBounds index items.size)

/-- Fail unless a value may be used as an instance of a class.  `null` may be used as any. -/
def checkCast (h : Heap) (owner : String) (v : Value) : Except Fault Unit :=
  let passes :=
    match v with
    | .null => true
    | .integer _ | .boolean _ | .text _ _ | .ref _ =>
      owner = ClassName.object || h.typeName v = owner
    | _ => owner = ClassName.object
  if passes then .ok () else .error (.classCast owner (h.typeName v))

end Heap

/-- The value of a static field: the console is the only one. -/
def readStatic (field : FieldRef) : Except Fault Value :=
  if field.owner = ClassName.system ∧ field.name = "out" then .ok .console
  else .error (.unknownField field.text)

/-- How the machine goes on after a library call. -/
inductive Reply where
  /-- With the result, if the method has one. -/
  | done (result : Option Value)
  /-- By printing a line. -/
  | print (line : String)
  /-- By calling a method of the running class. -/
  | apply (receiver : Value) (method : String) (args : List Value)
deriving DecidableEq, Inhabited

/-- The part of a text between two places. -/
def slice (text : String) (start stop : Nat) : String :=
  String.ofList ((text.toList.drop start).take (stop - start))

namespace LibraryMethod

/-- The line a print method prints. -/
def printedLine (h : Heap) (what : Printed) (v : Value) : Except Fault String :=
  match what with
  | .int => (h.rawInt v).map (toString ·.toInt)
  | .bool => (h.rawInt v).map (toString <| · != 0)
  | _ =>
    match h.textOf? v with
    | some text => .ok text
    | none => .error .aborted

/-- **The behaviour of the library.** -/
def perform (h : Heap) (method : LibraryMethod) (this : Value) (args : List Value) :
    Except Fault (Reply × Heap) :=
  let first := args[0]?.getD .null
  let second := args[1]?.getD .null
  match method with
  | objectInit => .ok (.done none, h)
  | integerValueOf => do
    let value ← h.rawInt first
    .ok (.done (some (.integer value)), h)
  | booleanValueOf => do
    let value ← h.rawInt first
    .ok (.done (some (.boolean (value != 0))), h)
  | intValue =>
    match this with
    | .integer value => .ok (.done (some (.raw value)), h)
    | _ => .error (h.mismatch ClassName.integer this)
  | booleanValue =>
    match this with
    | .boolean value => .ok (.done (some (.raw (if value then 1 else 0))), h)
    | _ => .error (h.mismatch ClassName.boolean this)
  | stringLength => do
    let text ← h.receiverText this
    .ok (.done (some (.raw (Int32.ofNat text.length))), h)
  | stringSubstring => do
    let text ← h.receiverText this
    let start ← h.rawInt first
    let stop ← h.rawInt second
    if start < 0 || stop < start || text.length < stop.toInt.toNat then
      .error (.stringIndex start stop text.length)
    else
      let (part, h) := h.newText (slice text start.toInt.toNat stop.toInt.toNat)
      .ok (.done (some part), h)
  | stringEquals => do
    let text ← h.receiverText this
    let equal : Bool :=
      match first with
      | .text _ other => other = text
      | _ => false
    .ok (.done (some (.raw (if equal then 1 else 0))), h)
  | println what => do
    let line ← printedLine h what first
    .ok (.print line, h)
  | arrayInit => do
    let h ← h.construct this (.array #[])
    .ok (.done none, h)
  | arrayAdd =>
    match h.dereference this "ArrayList.add" with
    | .error e => .error e
    | .ok (address, .array items) =>
      .ok (.done (some (.raw 1)), h.set address (.array (items.push first)))
    | .ok _ => .error (h.mismatch ClassName.array this)
  | listInit =>
    match h.object? first with
    | some (.array _) => do
      let h ← h.construct this (.list first)
      .ok (.done none, h)
    | _ => .error (h.mismatch ClassName.array first)
  | listCopy => do
    let items ← h.listItems first (h.mismatch ClassName.list first)
    let (copy, h) := h.alloc (.array items)
    let h ← h.construct this (.list copy)
    .ok (.done none, h)
  | listGet => do
    let index ← h.rawInt first
    let (_, items) ← h.backing this
    let place ← Heap.position items index
    .ok (.done (some (items[place]?.getD .null)), h)
  | listSet => do
    let index ← h.rawInt first
    let (address, items) ← h.backing this
    let place ← Heap.position items index
    .ok (.done none, h.set address (.array (items.setIfInBounds place second)))
  | listSize => do
    let items ← h.listItems this (h.mismatch ClassName.list this)
    .ok (.done (some (.raw (Int32.ofNat items.size))), h)
  | closureInit =>
    match second with
    | .text _ name => do
      let h ← h.construct this (.closure first name)
      .ok (.done none, h)
    | _ => .error (h.mismatch ClassName.string second)
  | closureInvoke =>
    match h.object? this with
    | some (.closure receiver name) => do
      let items ← h.listItems first (h.mismatch ClassName.array first)
      .ok (.apply receiver name items.toList, h)
    | _ => .error (h.mismatch ClassName.closure this)

end LibraryMethod

end StackBackend
