import StackBackend.Lowering.Emit

/-!
# Lowering expressions

`lowerExpr` appends code that leaves the boxed value of an expression on the stack; a call of a
function that returns nothing leaves nothing.  `lowerValue` insists on a value.

Operands are lowered from left to right.  Arithmetic and comparison of scalars unbox their
operands and box the result; comparisons become truth values through a pair of labels.  Lists and
the arguments of a call are built in an array held in a slot of its own, so that nested literals
and nested calls do not disturb each other; an element that is itself a list is copied on its way
in.

- `lowerExpr`, `lowerElements` are the two halves of the recursion;
- `producesValue` says whether an expression leaves a value;
- `callType` is the type of a call: what the function was recorded to return, else what the call
  is annotated with.
-/

namespace StackBackend

/-- The comparison of a comparing operator; arithmetic has none. -/
def BinaryOp.cond? : BinaryOp → Option Cond
  | eq => some .eq
  | ne => some .ne
  | gt => some .gt
  | ge => some .ge
  | lt => some .lt
  | le => some .le
  | _ => none

/-- The instruction of an arithmetic operator. -/
def BinaryOp.intOp : BinaryOp → IntOp
  | add => .add
  | sub => .sub
  | mul => .mul
  | div => .div
  | _ => .rem

namespace Lowering

open Emit

/-- What a called name returns: the recorded return type of a function, else the annotation of the
call. -/
def callType (env : Env) (scope : ScopeId) (callee : String) (annotated : Ty) : Ty :=
  match env.symbols.lookup scope callee with
  | some (.fn _) => (env.returns.find? callee).getD annotated
  | _ => annotated

/-- Whether lowering an expression leaves a value on the stack. -/
def producesValue (env : Env) (scope : ScopeId) : Expr → Bool
  | .call note callee _ =>
    match callee.ident? with
    | some name => !(callType env scope name note.ty).isVoid
    | none => true
  | _ => true

/-- Refuse an expression that leaves no value. -/
def requireValue (env : Env) (scope : ScopeId) (e : Expr) : Emit Unit :=
  if producesValue env scope e then pure () else refuse .voidValue e.span

/-- Refuse an expression that is not annotated with a type. -/
def expectTy (e : Expr) (ty : Ty) (role : OperandRole) : Emit Unit :=
  if e.ty = ty then pure () else refuse (.operandType role ty e.ty) e.span

/-- Push what a name stands for: a function pointer, or a variable. -/
def lowerIdent (env : Env) (scope : ScopeId) (name : String) (annotated : Ty) : Emit Unit :=
  match env.symbols.lookup scope name with
  | some (.fn _) => newClosure name
  | some (.var v) => loadVariable name v.ty
  | none => loadVariable name annotated

/-- Push the function pointer that a call goes through. -/
def lowerCallee (env : Env) (scope : ScopeId) (name : String) : Emit Unit :=
  match env.symbols.lookup scope name with
  | some (.fn _) => newClosure name
  | _ => do
    let slot ← varSlot name
    emitAll [.load slot, .cast ClassName.closure]

/-- Put a new array into a slot. -/
def newArray (slot : Nat) : Emit Unit :=
  emitAll [.new ClassName.array, .dup, .construct .arrayInit, .store slot]

/-- Call through the function pointer on the stack with the array of arguments in a slot, and make
of the result what the type of the call says. -/
def finishCall (slot : Nat) (ret : Ty) : Emit Unit := do
  emitAll [.load slot, .callVirtual .closureInvoke]
  if ret.isVoid then emit .pop else emitAll (downcast ret)

/-- What a comparison compares. -/
inductive Comparison where
  /-- Raw integers. -/
  | scalar (cond : Cond)
  /-- Contents of texts. -/
  | text
  /-- Identities of lists or function pointers. -/
  | identity
deriving DecidableEq, Inhabited

/-- How operands of two types are compared; none if they cannot be. -/
def comparison? (op : BinaryOp) (cond : Cond) (lhs rhs : Ty) : Option Comparison :=
  if lhs = .int ∧ rhs = .int then some (.scalar cond)
  else if op.isEquality then
    if lhs = .bool ∧ rhs = .bool then some (.scalar cond)
    else if lhs = .string ∧ rhs = .string then some .text
    else if lhs.isReference ∧ rhs.isReference then some .identity
    else none
  else none

mutual

/-- **Lower an expression.** -/
def lowerExpr (env : Env) (scope : ScopeId) : Expr → Emit Unit
  | .int _ value => emitAll (.ldc (.int value) :: boxing .int)
  | .bool _ value => emitAll (.ldc (.int (if value then 1 else 0)) :: boxing .bool)
  | .str _ value => emit (.ldc (.str value))
  | .ident note name => lowerIdent env scope name note.ty
  | .fnPtr _ name => newClosure name
  | .list _ elements => do
    let slot ← listLiteralSlot
    newArray slot
    lowerElements env scope slot elements
    emitAll [.new ClassName.list, .dup, .load slot, .construct .listInit]
  | .call note callee args =>
    match callee.ident? with
    | none => refuse .callTarget callee.span
    | some name => do
      lowerCallee env scope name
      let depth := (← get).callDepth
      let slot ← slotOf (.callArgs name depth)
      inCall do
        newArray slot
        lowerElements env scope slot args
      finishCall slot (callType env scope name note.ty)
  | .index _ base [index] =>
    match base.ty.element? with
    | none => refuse (.indexBase base.ty) base.span
    | some element => do
      expectTy index .int .listIndex
      requireValue env scope base
      lowerExpr env scope base
      requireValue env scope index
      lowerExpr env scope index
      emitAll (unboxing .int)
      emit (.callVirtual .listGet)
      if element.isList then pure () else emitAll (downcast element)
  | .index _ base indices => refuse (.indexCount indices.length) base.span
  | .binary note op lhs rhs =>
    match op.cond? with
    | none => do
      expectTy lhs .int .arithmetic
      expectTy rhs .int .arithmetic
      requireValue env scope lhs
      lowerExpr env scope lhs
      emitAll (unboxing lhs.ty)
      requireValue env scope rhs
      lowerExpr env scope rhs
      emitAll (unboxing rhs.ty)
      emit (.arith op.intOp)
      emitAll (boxing .int)
    | some cond =>
      match comparison? op cond lhs.ty rhs.ty with
      | none => refuse (.comparison lhs.ty rhs.ty op) note.span
      | some (.scalar cond) => do
        requireValue env scope lhs
        lowerExpr env scope lhs
        emitAll (unboxing lhs.ty)
        requireValue env scope rhs
        lowerExpr env scope rhs
        emitAll (unboxing rhs.ty)
        truthOf (.ifInt cond)
      | some .text => do
        requireValue env scope lhs
        lowerExpr env scope lhs
        requireValue env scope rhs
        lowerExpr env scope rhs
        emit (.callVirtual .stringEquals)
        truthOf (if op = .eq then .ifNonzero else .ifZero)
      | some .identity => do
        requireValue env scope lhs
        lowerExpr env scope lhs
        requireValue env scope rhs
        lowerExpr env scope rhs
        truthOf (.ifRef (op = .eq))
  | .unary _ .neg operand => do
    expectTy operand .int .negation
    requireValue env scope operand
    lowerExpr env scope operand
    emitAll (unboxing operand.ty)
    emit .neg
    emitAll (boxing .int)
  | .unary _ .not operand => do
    expectTy operand .bool .logicalNot
    requireValue env scope operand
    lowerExpr env scope operand
    emitAll (unboxing operand.ty)
    emitAll [.ldc (.int 1), .arith .xor]
    emitAll (boxing .bool)
  | .unary _ op operand =>
    match operand.ident? with
    | none => refuse (.incrementTarget op) operand.span
    | some name => do
      expectTy operand .int .increment
      requireValue env scope operand
      lowerExpr env scope operand
      emitAll (unboxing operand.ty)
      emitAll [.ldc (.int 1), .arith (if op = .inc then .add else .sub)]
      emitAll (boxing .int)
      emit .dup
      let slot ← varSlot name
      emit (.store slot)
  | .len _ operand => do
    requireValue env scope operand
    lowerExpr env scope operand
    match operand.ty with
    | .string => emit (.callVirtual .stringLength)
    | .list _ => emit (.callVirtual .listSize)
    | other => refuse (.lenOperand other) operand.span
    emitAll (boxing .int)
  | .chop _ operand => do
    expectTy operand .string .chop
    requireValue env scope operand
    lowerExpr env scope operand
    emitAll [.dup, .callVirtual .stringLength, .ldc (.int 1), .arith .sub, .zero, .swap,
      .callVirtual .stringSubstring]

/-- Add expressions to the array in a slot, in order.  An element that is a list goes in as a copy
in a wrapper of its own. -/
def lowerElements (env : Env) (scope : ScopeId) (slot : Nat) : List Expr → Emit Unit
  | [] => pure ()
  | element :: rest => do
    emit (.load slot)
    if element.ty.isList then
      emitAll [.new ClassName.list, .dup]
      requireValue env scope element
      lowerExpr env scope element
      emit (.construct .listCopy)
    else
      requireValue env scope element
      lowerExpr env scope element
    emitAll [.callVirtual .arrayAdd, .pop]
    lowerElements env scope slot rest

end

/-- Lower an expression that must leave a value. -/
def lowerValue (env : Env) (scope : ScopeId) (e : Expr) : Emit Unit := do
  requireValue env scope e
  lowerExpr env scope e

end Lowering

end StackBackend
