import StackBackend.Lowering.Expression

/-!
# Lowering statements

`lowerStmt` appends the code of a statement, `lowerBlock` that of a block.  Apart from a return,
the code leaves the operand stack as it found it.

A conditional and a loop take two labels each.  The exit of a loop and its start are where
`break` and `next` go; a conditional whose first branch ends in a return does not jump over the
second.  A compound assignment is the plain assignment of an arithmetic expression, for a variable
and for an element of a list alike, so the index of an element is lowered once to store and once
more to read.
-/

namespace StackBackend.Lowering

open Emit

/-- The value that an assignment stores, `current` being what the target holds. -/
def assignedValue (op : AssignOp) (current value : Expr) : Expr :=
  match op.binary? with
  | none => value
  | some op => .binary { ty := .int, span := value.span } op current value

def lowerAssign (env : Env) (scope : ScopeId) (target : Expr) (index : Option Expr) (op : AssignOp)
    (value : Expr) : Emit Unit :=
  match target.ident? with
  | none => refuse .assignTarget target.span
  | some name => do
    let slot ← varSlot name
    match index with
    | none =>
      lowerValue env scope (assignedValue op target value)
      emit (.store slot)
    | some index =>
      match target.ty.element? with
      | none => refuse (.assignIndexBase target.ty) target.span
      | some element =>
        expectTy index .int .listIndex
        emitAll [.load slot, .cast ClassName.list]
        lowerValue env scope index
        emitAll (unboxing .int)
        let current : Expr := .index { ty := element, span := target.span } target [index]
        lowerValue env scope (assignedValue op current value)
        emit (.callVirtual .listSet)

/-- The print method for a type. -/
def printed? : Ty → Option Printed
  | .int => some .int
  | .bool => some .bool
  | .string => some .text
  | .list _ => some .object
  | .fptr _ _ => some .object
  | .void => none

def lowerPut (env : Env) (scope : ScopeId) (value : Expr) : Emit Unit := do
  emit (.getStatic consoleField)
  lowerValue env scope value
  match printed? value.ty with
  | none => refuse .printVoid value.span
  | some what =>
    emitAll (downcast value.ty)
    emitAll (unboxing value.ty)
    emit (.callVirtual (.println what))

/-- The innermost loop around a statement. -/
def innermostLoop (stmt : LoopStmt) (span : Span) : Emit LoopLabels := do
  match (← get).loops.innermost? with
  | some labels => pure labels
  | none => refuse (.outsideLoop stmt) span

/-- Jump to a label, unless the code already ends in a return. -/
def jumpUnlessReturned (target : Label) : Emit Unit := do
  if (← get).code.endsWithReturn then pure () else emit (.jump target)

mutual

/-- **Lower a statement.** -/
def lowerStmt (env : Env) (scope : ScopeId) : Stmt → Emit Unit
  | .assign _ target index op value => lowerAssign env scope target index op value
  | .branch _ cond thenBody elseBody block => do
    if cond.ty = .bool then pure () else refuse (.condition cond.ty) cond.span
    lowerValue env scope cond
    emitAll (unboxing .bool)
    let otherwise ← freshLabel
    let exit ← freshLabel
    emit (.ifZero otherwise)
    lowerBlock env (env.symbols.enter scope block) thenBody
    jumpUnlessReturned exit
    emit (.label otherwise)
    lowerBlock env (env.symbols.enter scope block) elseBody
    emit (.label exit)
  | .loop _ body block => do
    let start ← freshLabel
    let exit ← freshLabel
    withLoop ⟨start, exit⟩ do
      emit (.label start)
      lowerBlock env (env.symbols.enter scope block) body
    emitAll [.jump start, .label exit]
  | .exitLoop span => do
    let labels ← innermostLoop .exit span
    emit (.jump labels.exit)
  | .nextLoop span => do
    let labels ← innermostLoop .next span
    emit (.jump labels.start)
  | .ret _ none => emit .ret
  | .ret _ (some value) => do
    lowerValue env scope value
    emit .retValue
  | .put _ value => lowerPut env scope value
  | .eval _ expr => do
    lowerExpr env scope expr
    if producesValue env scope expr then emit .pop else pure ()

/-- Lower a block, statement by statement. -/
def lowerBlock (env : Env) (scope : ScopeId) : List Stmt → Emit Unit
  | [] => pure ()
  | stmt :: rest => do
    lowerStmt env scope stmt
    lowerBlock env scope rest

end

end StackBackend.Lowering
