import StackBackend.Assembly.Descriptor
import StackBackend.Assembly.Quoted

/-!
# Instructions of the stack machine

A method body is a flat sequence of instructions.  Operands are popped from a stack and results
pushed; local storage is numbered slots, slot zero holding the receiver.  A label definition is an
instruction of its own that does nothing.

- `Instruction` is one line of a body, `Instruction.text` its spelling;
- `Instruction.target?`, `Instruction.endsBlock` and `Instruction.isReturn` say how control leaves
  it.
-/

namespace StackBackend

structure Label where
  id : Nat
deriving DecidableEq, Inhabited

/-- The spelling `Label_n`. -/
def Label.text (l : Label) : String := "Label_" ++ toString l.id

/-- The operand of `ldc`. -/
inductive Constant where
  | int (value : Int32)
  | str (value : String)
deriving DecidableEq, Inhabited

/-- The spelling of a constant: digits, or quoted text. -/
def Constant.text : Constant → String
  | int value => toString value.toInt
  | str value => Quoted.quote value

/-- An integer comparison. -/
inductive Cond where
  | eq | ne | gt | ge | lt | le
deriving DecidableEq, Inhabited

namespace Cond

/-- All comparisons, in order. -/
def all : List Cond := [eq, ne, gt, ge, lt, le]

/-- Whether the comparison holds, the left operand being the one pushed first. -/
def holds : Cond → Int32 → Int32 → Bool
  | eq, lhs, rhs => lhs = rhs
  | ne, lhs, rhs => lhs ≠ rhs
  | gt, lhs, rhs => rhs < lhs
  | ge, lhs, rhs => rhs ≤ lhs
  | lt, lhs, rhs => lhs < rhs
  | le, lhs, rhs => lhs ≤ rhs

/-- The two letters of the comparison in a mnemonic. -/
def suffix : Cond → String
  | eq => "eq" | ne => "ne" | gt => "gt" | ge => "ge" | lt => "lt" | le => "le"

end Cond

/-- Integer arithmetic on the two topmost operands. -/
inductive IntOp where
  | add | sub | mul | div | rem | xor
deriving DecidableEq, Inhabited

def IntOp.mnemonic : IntOp → String
  | add => "iadd" | sub => "isub" | mul => "imul" | div => "idiv" | rem => "irem" | xor => "ixor"

/-- How a method is called: on a receiver, as a constructor, or without a receiver. -/
inductive InvokeKind where
  | virtual | special | static
deriving DecidableEq, Inhabited

def InvokeKind.mnemonic : InvokeKind → String
  | virtual => "invokevirtual" | special => "invokespecial" | static => "invokestatic"

/-- A method as an operand names it. -/
structure MethodRef where
  owner : String
  name : String
  descriptor : String
deriving DecidableEq, Inhabited

namespace MethodRef

/-- The spelling `owner/name` followed by the descriptor. -/
def text (m : MethodRef) : String := m.owner ++ "/" ++ m.name ++ m.descriptor

/-- Number of arguments, a receiver not counted. -/
def arity (m : MethodRef) : Nat := Descriptor.arity m.descriptor

/-- Whether a call leaves a result. -/
def returnsValue (m : MethodRef) : Bool := Descriptor.returnsValue m.descriptor

end MethodRef

/-- A static field as an operand names it. -/
structure FieldRef where
  owner : String
  name : String
  descriptor : String
deriving DecidableEq, Inhabited

/-- The spelling `owner/name`, a blank, and the descriptor. -/
def FieldRef.text (f : FieldRef) : String := f.owner ++ "/" ++ f.name ++ " " ++ f.descriptor

inductive Instruction where
  /-- Push a local slot. -/
  | load (slot : Nat)
  /-- Pop into a local slot. -/
  | store (slot : Nat)
  | ldc (constant : Constant)
  /-- Push the raw integer zero. -/
  | zero
  /-- Push a new object of a class, not yet initialized. -/
  | new (owner : String)
  | dup
  | pop
  | swap
  /-- Fail unless the top is an instance of a class. -/
  | cast (owner : String)
  | getStatic (field : FieldRef)
  | invoke (kind : InvokeKind) (method : MethodRef)
  | arith (op : IntOp)
  | neg
  | jump (target : Label)
  /-- Pop a raw integer, jump if it is zero. -/
  | ifZero (target : Label)
  /-- Pop a raw integer, jump unless it is zero. -/
  | ifNonzero (target : Label)
  /-- Pop two raw integers, jump if the comparison holds. -/
  | ifInt (cond : Cond) (target : Label)
  /-- Pop two references, jump if their being the same object agrees with `same`. -/
  | ifRef (same : Bool) (target : Label)
  /-- The place of a label. -/
  | label (label : Label)
  | ret
  /-- Return the top of the stack. -/
  | retValue
deriving DecidableEq, Inhabited

namespace Instruction

/-- The mnemonic; a label definition has none. -/
def mnemonic? : Instruction → Option String
  | load _ => some "aload"
  | store _ => some "astore"
  | ldc _ => some "ldc"
  | zero => some "iconst_0"
  | new _ => some "new"
  | dup => some "dup"
  | pop => some "pop"
  | swap => some "swap"
  | cast _ => some "checkcast"
  | getStatic _ => some "getstatic"
  | invoke kind _ => some kind.mnemonic
  | arith op => some op.mnemonic
  | neg => some "ineg"
  | jump _ => some "goto"
  | ifZero _ => some "ifeq"
  | ifNonzero _ => some "ifne"
  | ifInt cond _ => some ("if_icmp" ++ cond.suffix)
  | ifRef true _ => some "if_acmpeq"
  | ifRef false _ => some "if_acmpne"
  | label _ => none
  | ret => some "return"
  | retValue => some "areturn"

/-- The operand, as it is spelled behind the mnemonic. -/
def operand? : Instruction → Option String
  | load slot => some (toString slot)
  | store slot => some (toString slot)
  | ldc constant => some constant.text
  | new owner => some owner
  | cast owner => some owner
  | getStatic field => some field.text
  | invoke _ method => some method.text
  | jump target | ifZero target | ifNonzero target | ifInt _ target | ifRef _ target =>
      some target.text
  | _ => none

/-- The spelling of an instruction.  Loading slot zero has a mnemonic of its own. -/
def text (i : Instruction) : String :=
  match i with
  | label l => l.text ++ ":"
  | load 0 => "aload_0"
  | _ =>
    match i.operand? with
    | some operand => i.mnemonic?.getD "" ++ " " ++ operand
    | none => i.mnemonic?.getD ""

/-- Whether this is one of the two return instructions. -/
def isReturn : Instruction → Bool
  | ret | retValue => true
  | _ => false

/-- The label a jump refers to. -/
def target? : Instruction → Option Label
  | jump target | ifZero target | ifNonzero target | ifInt _ target | ifRef _ target => some target
  | _ => none

/-- Whether control never goes on to the next instruction. -/
def endsBlock : Instruction → Bool
  | jump _ | ret | retValue => true
  | _ => false

def isLabel : Instruction → Bool
  | label _ => true
  | _ => false

end Instruction

/-- A sequence of instructions. -/
abbrev Code := Array Instruction

/-- Whether a sequence ends in a return. -/
def Code.endsWithReturn (code : Code) : Bool :=
  match code.back? with
  | some i => i.isReturn
  | none => false

end StackBackend
