import StackBackend.Library
import StackBackend.Lowering.Error
import StackBackend.Lowering.Slots
import StackBackend.Scope.Table

/-!
# The state of lowering

Lowering a body appends instructions to a buffer, hands out labels and local slots, and keeps
track of the loops and calls it is inside of.  `Lowering.State` is that state and `Emit` an action
on it.  An action that fails keeps what it did to the state, so whatever was emitted before the
failure stays.

- `Labels` hands out each label once;
- `LoopStack` holds the loops around the current statement;
- `Emit.withLoop` and `Emit.inCall` run an action inside a loop or a call and leave it again, also
  when the action fails.
-/

namespace StackBackend.Lowering

/-! ## Labels -/

/-- A supply of labels: those below `issued` are taken. -/
structure Labels where
  issued : Nat := 0
deriving DecidableEq, Inhabited

/-- Take the next label. -/
def Labels.fresh (l : Labels) : Label × Labels := (⟨l.issued⟩, ⟨l.issued + 1⟩)

/-! ## Loops -/

/-- The two places of a loop that control can go to. -/
structure LoopLabels where
  start : Label
  exit : Label
deriving DecidableEq, Inhabited

/-- The loops around a statement, the innermost first, and how often one was entered and left. -/
structure LoopStack where
  loops : List LoopLabels := []
  entered : Nat := 0
  left : Nat := 0
deriving DecidableEq, Inhabited

namespace LoopStack

def push (s : LoopStack) (labels : LoopLabels) : LoopStack :=
  { s with loops := labels :: s.loops, entered := s.entered + 1 }

/-- Leave the innermost loop, if there is one. -/
def pop (s : LoopStack) : Option LoopLabels × LoopStack :=
  match s.loops with
  | labels :: loops => (some labels, { s with loops, left := s.left + 1 })
  | [] => (none, s)

/-- The innermost loop. -/
def innermost? (s : LoopStack) : Option LoopLabels := s.loops.head?

/-- Number of loops around. -/
def depth (s : LoopStack) : Nat := s.loops.length

end LoopStack

/-! ## Actions -/

/-- The state of lowering one body. -/
structure State where
  labels : Labels := {}
  slots : Slots := .empty
  loops : LoopStack := {}
  code : Code := #[]
  /-- List literals met so far. -/
  listLiterals : Nat := 0
  /-- Calls whose arguments are being lowered. -/
  callDepth : Nat := 0
deriving Inhabited

/-- What lowering looks names up in: the symbol table, and the return types of the functions
lowered so far. -/
structure Env where
  symbols : SymbolTable
  returns : NameMap Ty := {}

/-- An action on the state of lowering. -/
abbrev Emit (α : Type) := ExceptT LoweringError (StateM State) α

namespace Emit

def emit (i : Instruction) : Emit Unit :=
  modify fun s => { s with code := s.code.push i }

def emitAll (is : List Instruction) : Emit Unit :=
  modify fun s => { s with code := s.code ++ is }

/-- Refuse a node. -/
def refuse {α : Type} (fault : ShapeFault) (span : Span) : Emit α :=
  throw (.shape fault span)

def freshLabel : Emit Label :=
  modifyGet fun s =>
    let (label, labels) := s.labels.fresh
    (label, { s with labels })

/-- The slot of a key. -/
def slotOf (key : SlotKey) : Emit Nat :=
  ExceptT.mk fun s =>
    match s.slots.slot key with
    | some (slot, slots) => (.ok slot, { s with slots })
    | none => (.error .outOfSlots, s)

/-- The slot of a variable. -/
def varSlot (name : String) : Emit Nat := slotOf (.var name)

/-- The slot of the next list literal. -/
def listLiteralSlot : Emit Nat := do
  let number ← modifyGet fun s => (s.listLiterals, { s with listLiterals := s.listLiterals + 1 })
  slotOf (.listLiteral number)

/-- Run an action inside a loop, and leave the loop whatever happens. -/
def withLoop (labels : LoopLabels) (action : Emit Unit) : Emit Unit :=
  ExceptT.mk fun s =>
    let (result, s) := action.run { s with loops := s.loops.push labels }
    (result, { s with loops := s.loops.pop.2 })

/-- Run an action on the arguments of a call, and leave the call whatever happens. -/
def inCall (action : Emit Unit) : Emit Unit :=
  ExceptT.mk fun s =>
    let (result, s) := action.run { s with callDepth := s.callDepth + 1 }
    (result, { s with callDepth := s.callDepth - 1 })

/-- Push a function pointer: the receiver paired with the name of a function. -/
def newClosure (name : String) : Emit Unit :=
  emitAll [.new ClassName.closure, .dup, .load 0, .ldc (.str name), .construct .closureInit]

/-- Push a variable, checked against a type. -/
def loadVariable (name : String) (ty : Ty) : Emit Unit := do
  let slot ← varSlot name
  emitAll (.load slot :: downcast ty)

/-- Turn a conditional jump into a boxed truth value; `branch` is the jump to take when the value
is true. -/
def truthOf (branch : Label → Instruction) : Emit Unit := do
  let whenTrue ← freshLabel
  let exit ← freshLabel
  emitAll [branch whenTrue, .ldc (.int 0), .callStatic .booleanValueOf, .jump exit,
    .label whenTrue, .ldc (.int 1), .callStatic .booleanValueOf, .label exit]

end Emit

end StackBackend.Lowering
