import StackBackend.Tree.Basic

/-!
# What lowering refuses

A checker rules these out; lowering reports them all the same.  Each refusal has a cause, and
`LoweringError.message` puts causes into words.
-/

namespace StackBackend

/-- What an operand of a fixed type is used for. -/
inductive OperandRole where
  | arithmetic | negation | logicalNot | increment | chop | listIndex
deriving DecidableEq, Inhabited

def OperandRole.text : OperandRole → String
  | arithmetic => "arithmetic"
  | negation => "negation"
  | logicalNot => "logical not"
  | increment => "increment"
  | chop => "chop"
  | listIndex => "list index"

/-- The two statements that need a loop around them. -/
inductive LoopStmt where
  | exit | next
deriving DecidableEq, Inhabited

def LoopStmt.text : LoopStmt → String
  | exit => "break"
  | next => "next"

/-- What is wrong with a node. -/
inductive ShapeFault where
  | callTarget
  | indexCount (found : Nat)
  | indexBase (ty : Ty)
  | operandType (role : OperandRole) (expected found : Ty)
  | comparison (lhs rhs : Ty) (op : BinaryOp)
  /-- Increment or decrement of something that is no variable. -/
  | incrementTarget (op : UnaryOp)
  | lenOperand (ty : Ty)
  | voidValue
  | assignTarget
  | assignIndexBase (ty : Ty)
  | condition (ty : Ty)
  | outsideLoop (stmt : LoopStmt)
  | printVoid
deriving DecidableEq, Inhabited

def ShapeFault.message : ShapeFault → String
  | callTarget => "call target must be a name"
  | indexCount found => "list access takes one index, found " ++ toString found
  | indexBase ty => "indexing a " ++ ty.text ++ " value"
  | operandType role expected found =>
      role.text ++ " expects " ++ expected.text ++ ", found " ++ found.text
  | comparison lhs rhs op =>
      "cannot compare " ++ lhs.text ++ " with " ++ rhs.text ++ " using " ++ op.name
  | incrementTarget op => op.name ++ " needs a variable operand"
  | lenOperand ty => "len of a " ++ ty.text ++ " value"
  | voidValue => "a call to a void function used as a value"
  | assignTarget => "assignment target must be a variable"
  | assignIndexBase ty => "indexed assignment into a " ++ ty.text ++ " value"
  | condition ty => "condition must be bool, found " ++ ty.text
  | outsideLoop stmt => stmt.text ++ " outside a loop"
  | printVoid => "printing a value of type void"

/-- What a name should have stood for. -/
inductive NameKind where
  | function | scope
deriving DecidableEq, Inhabited

def NameKind.text : NameKind → String
  | function => "function"
  | scope => "scope"

/-- Why lowering stops. -/
inductive LoweringError where
  | unresolved (kind : NameKind) (name : String)
  | shape (fault : ShapeFault) (span : Span)
  /-- A slot was asked for when all numbers were taken.  This is no refusal: lowering breaks off
  without an answer. -/
  | outOfSlots
deriving DecidableEq, Inhabited

def LoweringError.message : LoweringError → String
  | unresolved kind name => "unresolved " ++ kind.text ++ " `" ++ name ++ "`"
  | shape fault span => "malformed tree at " ++ span.text ++ ": " ++ fault.message
  | outOfSlots => "attempt to add with overflow"

end StackBackend
