import StackBackend.Assembly.ClassFile
import StackBackend.Machine.Native

/-!
# One instruction

The machine runs the methods of one class.  Each open call has a `Frame`; what all frames share, the
heap, the printed lines and the count of open calls, is the `World`.  `Frame.execute` carries out
one instruction of the innermost frame and says where control goes: on in the same frame, into a new
frame, or out of the frame.

- `Frame`, `World`, `Control` are the data;
- `World.enter` and `World.leave` count calls that are opened and left;
- `Frame.call` makes a frame for a method, within `maxFrames` open calls;
- `Frame.execute` carries out an instruction.

An instruction that fails ends the run, and leaves the world as far as it has come: a constructor
that cannot be entered has marked its object initialized already.
-/

namespace StackBackend

/-- Number of calls that may be open at a time. -/
def maxFrames : Nat := 1024

/-- What a caller does with the result of a call. -/
inductive ResultUse where
  /-- Push it if there is one. -/
  | ifAny
  /-- Push it, or `null` if there is none. -/
  | orNull
deriving DecidableEq, Inhabited

/-- An open call. -/
structure Frame where
  /-- The method, as faults report it. -/
  method : String
  code : Code
  labels : LabelTable
  /-- The place of the next instruction. -/
  pc : Nat := 0
  /-- Operands, the top first. -/
  stack : List Value := []
  locals : Array Value
  /-- What the caller does with the result. -/
  use : ResultUse := .ifAny
deriving Inhabited

/-- What all frames share. -/
structure World where
  heap : Heap := {}
  /-- Lines printed so far. -/
  printed : Array String := #[]
  /-- Number of open calls; a bare code fragment is no call. -/
  depth : Nat := 0
deriving Inhabited

/-- So many calls more are open. -/
def World.enter (w : World) (calls : Nat) : World := { w with depth := w.depth + calls }

/-- So many of the open calls have been left. -/
def World.leave (w : World) (calls : Nat) : World := { w with depth := w.depth - calls }

/-- Where control goes after an instruction. -/
inductive Control where
  /-- On, in the same frame. -/
  | next (frame : Frame)
  /-- Into a called method. -/
  | enter (caller callee : Frame)
  /-- Out of the frame. -/
  | leave (frame : Frame) (result : Option Value)
deriving Inhabited

/-- The method of a class that a call names. -/
def ClassFile.resolve (c : ClassFile) (name : String) : Except Fault Method :=
  match c.method? name with
  | some method => .ok method
  | none => .error (.unknownMethod (c.name ++ "/" ++ name))

namespace Frame

/-- A frame for a method that is called when `depth` calls are open.  Locals are the receiver,
unless the method is static, and the arguments. -/
def call (method : Method) (receiver : Option Value) (args : List Value) (depth : Nat)
    (use : ResultUse) : Except Fault Frame :=
  if maxFrames ≤ depth then .error (.stackOverflow maxFrames)
  else
    match labelTable method.code with
    | .error e => .error (.malformed e)
    | .ok labels =>
      let locals := if method.isStatic then args else receiver.getD .null :: args
      .ok { method := method.name, code := method.code, labels, locals := locals.toArray, use }

/-- A frame for bare code. -/
def fragment (code : Code) (locals : Array Value) : Except Fault Frame :=
  match labelTable code with
  | .error e => .error (.malformed e)
  | .ok labels => .ok { method := "<fragment>", code, labels, locals }

/-! ## Operands and locals -/

/-- Too few operands. -/
def underflow (f : Frame) : Fault := .stackUnderflow f.method

def push (f : Frame) (v : Value) : Frame := { f with stack := v :: f.stack }

def pop (f : Frame) : Except Fault (Value × Frame) :=
  match f.stack with
  | v :: stack => .ok (v, { f with stack })
  | [] => .error f.underflow

def popInt (h : Heap) (f : Frame) : Except Fault (Int32 × Frame) :=
  match f.pop with
  | .error e => .error e
  | .ok (v, f) =>
    match h.rawInt v with
    | .error e => .error e
    | .ok value => .ok (value, f)

/-- Take operands off a stack, in the order they were pushed. -/
def takeArgs : Nat → (taken stack : List Value) → Option (List Value × List Value)
  | 0, taken, stack => some (taken, stack)
  | count + 1, taken, v :: stack => takeArgs count (v :: taken) stack
  | _ + 1, _, [] => none

def popArgs (f : Frame) (count : Nat) : Except Fault (List Value × Frame) :=
  match takeArgs count [] f.stack with
  | some (args, stack) => .ok (args, { f with stack })
  | none => .error f.underflow

/-- Read a local slot; one never written holds `null`. -/
def loadLocal (f : Frame) (slot : Nat) : Value := f.locals[slot]?.getD .null

/-- Write a local slot, making room for it if needed. -/
def storeLocal (f : Frame) (slot : Nat) (v : Value) : Frame :=
  if slot < f.locals.size then { f with locals := f.locals.setIfInBounds slot v }
  else { f with locals := (f.locals ++ Array.replicate (slot - f.locals.size) Value.null).push v }

/-- Go on at a label. -/
def jump (f : Frame) (target : Label) : Except Fault Frame :=
  match f.labels.lookup target with
  | some pc => .ok { f with pc }
  | none => .error (.unknownLabel target)

/-- Go on at a label if a condition holds, at the next instruction otherwise. -/
def jumpIf (f : Frame) (cond : Bool) (target : Label) : Except Fault Frame :=
  if cond then f.jump target else .ok f

/-- Take the result of a finished call. -/
def receive (caller : Frame) (use : ResultUse) (result : Option Value) : Frame :=
  match result, use with
  | some v, _ => caller.push v
  | none, .orNull => caller.push .null
  | none, .ifAny => caller

end Frame

/-! ## Arithmetic -/

/-- Arithmetic on 32-bit integers.  It wraps; division goes toward zero. -/
def IntOp.apply (op : IntOp) (lhs rhs : Int32) : Except Fault Int32 :=
  match op with
  | add => .ok (lhs + rhs)
  | sub => .ok (lhs - rhs)
  | mul => .ok (lhs * rhs)
  | div => if rhs = 0 then .error .divisionByZero else .ok (lhs / rhs)
  | rem => if rhs = 0 then .error .divisionByZero else .ok (lhs % rhs)
  | xor => .ok (lhs ^^^ rhs)

/-! ## Calls -/

namespace Frame

/-- Call a method of the running class. -/
def callOwn (c : ClassFile) (f : Frame) (w : World) (name : String) (receiver : Option Value)
    (args : List Value) (use : ResultUse) : Except Fault Control × World :=
  match c.resolve name with
  | .error e => (.error e, w)
  | .ok method =>
    match Frame.call method receiver args w.depth use with
    | .error e => (.error e, w)
    | .ok callee => (.ok (.enter f callee), w.enter 1)

/-- Call a method of the running class by an operand.  Calling the constructor marks the receiver
as initialized before the constructor's body runs. -/
def callMember (c : ClassFile) (f : Frame) (w : World) (name : String) (receiver : Option Value)
    (args : List Value) : Except Fault Control × World :=
  match receiver with
  | some this =>
    if name = constructorName then
      match c.resolve name with
      | .error e => (.error e, w)
      | .ok _ =>
        match w.heap.construct this (.inst c.name) with
        | .error e => (.error e, w)
        | .ok heap => f.callOwn c { w with heap } name receiver args .ifAny
    else f.callOwn c w name receiver args .ifAny
  | none => f.callOwn c w name receiver args .ifAny

/-- Call a method of the library. -/
def callLibrary (c : ClassFile) (f : Frame) (w : World) (method : LibraryMethod)
    (receiver : Option Value) (args : List Value) : Except Fault Control × World :=
  match method.perform w.heap (receiver.getD .null) args with
  | .error e => (.error e, w)
  | .ok (.done result, heap) => (.ok (.next (f.receive .ifAny result)), { w with heap })
  | .ok (.print line, heap) => (.ok (.next f), { w with heap, printed := w.printed.push line })
  | .ok (.apply this name args, heap) =>
    f.callOwn c { w with heap } name (some this) args .orNull

/-- Call the method an operand names.  Methods of the running class come first. -/
def callMethod (c : ClassFile) (f : Frame) (w : World) (method : MethodRef)
    (receiver : Option Value) (args : List Value) : Except Fault Control × World :=
  if method.owner = c.name then f.callMember c w method.name receiver args
  else
    match LibraryMethod.resolve? method with
    | some m => f.callLibrary c w m receiver args
    | none => (.error (.unknownMethod method.text), w)

/-- Pop the arguments and the receiver of a call, and call. -/
def invoke (c : ClassFile) (f : Frame) (w : World) (kind : InvokeKind) (method : MethodRef) :
    Except Fault Control × World :=
  match f.popArgs method.arity with
  | .error e => (.error e, w)
  | .ok (args, f) =>
    match kind with
    | .static => f.callMethod c w method none args
    | _ =>
      match f.pop with
      | .error e => (.error e, w)
      | .ok (receiver, f) => f.callMethod c w method (some receiver) args

/-! ## Instructions -/

/-- Go on in a frame, or fail, with the world as it is. -/
def stay (w : World) (f : Except Fault Frame) : Except Fault Control × World :=
  (f.map .next, w)

/-- **Carry out one instruction.**  The frame already points at the next one. -/
def execute (c : ClassFile) (i : Instruction) (f : Frame) (w : World) :
    Except Fault Control × World :=
  match i with
  | .label _ => (.ok (.next f), w)
  | .load slot => (.ok (.next (f.push (f.loadLocal slot))), w)
  | .store slot => stay w do
    let (v, f) ← f.pop
    .ok (f.storeLocal slot v)
  | .ldc (.int value) => (.ok (.next (f.push (.raw value))), w)
  | .ldc (.str content) =>
    let (v, heap) := w.heap.newText content
    (.ok (.next (f.push v)), { w with heap })
  | .zero => (.ok (.next (f.push (.raw 0))), w)
  | .new owner =>
    let (v, heap) := w.heap.alloc (.uninit owner)
    (.ok (.next (f.push v)), { w with heap })
  | .dup => stay w do
    let (v, f) ← f.pop
    .ok ((f.push v).push v)
  | .pop => stay w do
    let (_, f) ← f.pop
    .ok f
  | .swap => stay w do
    let (a, f) ← f.pop
    let (b, f) ← f.pop
    .ok ((f.push a).push b)
  | .cast owner => stay w do
    let (v, _) ← f.pop
    w.heap.checkCast owner v
    .ok f
  | .getStatic field => stay w do
    let v ← readStatic field
    .ok (f.push v)
  | .invoke kind method => f.invoke c w kind method
  | .arith op => stay w do
    let (rhs, f) ← f.popInt w.heap
    let (lhs, f) ← f.popInt w.heap
    let value ← op.apply lhs rhs
    .ok (f.push (.raw value))
  | .neg => stay w do
    let (value, f) ← f.popInt w.heap
    .ok (f.push (.raw (-value)))
  | .jump target => stay w (f.jump target)
  | .ifZero target => stay w do
    let (value, f) ← f.popInt w.heap
    f.jumpIf (value = 0) target
  | .ifNonzero target => stay w do
    let (value, f) ← f.popInt w.heap
    f.jumpIf (value ≠ 0) target
  | .ifInt cond target => stay w do
    let (rhs, f) ← f.popInt w.heap
    let (lhs, f) ← f.popInt w.heap
    f.jumpIf (cond.holds lhs rhs) target
  | .ifRef same target => stay w do
    let (rhs, f) ← f.pop
    let (lhs, f) ← f.pop
    f.jumpIf (lhs.same rhs == same) target
  | .ret => (.ok (.leave f none), w)
  | .retValue =>
    match f.pop with
    | .error e => (.error e, w)
    | .ok (v, f) => (.ok (.leave f (some v)), w)

end Frame

end StackBackend
