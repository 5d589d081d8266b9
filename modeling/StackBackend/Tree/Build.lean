import StackBackend.Tree.Basic

/-!
# Building trees by hand

Constructors that annotate a node the way a checker would: literals carry their own type, an
arithmetic node is an integer, a comparison is a truth value, an index takes the element type of
its base.  All nodes carry the zero span.
-/

namespace StackBackend.Build

def int (value : Int32) : Expr := .int { ty := .int } value

def bool (value : Bool) : Expr := .bool { ty := .bool } value

def str (value : String) : Expr := .str { ty := .string } value

/-- A name; `ty` is the variable's type, or the function pointer type of a function's name. -/
def ident (name : String) (ty : Ty) : Expr := .ident { ty } name

def fnPtr (name : String) (ty : Ty) : Expr := .fnPtr { ty } name

def list (element : Ty) (elements : List Expr) : Expr := .list { ty := .list element } elements

/-- A call by name; `ret` is the callee's return type. -/
def call (callee : String) (args : List Expr) (ret : Ty) : Expr :=
  .call { ty := ret } (ident callee .void) args

def index (base position : Expr) : Expr :=
  .index { ty := base.ty.element?.getD .void } base [position]

def binary (op : BinaryOp) (lhs rhs : Expr) : Expr :=
  .binary { ty := if op.isArithmetic then .int else .bool } op lhs rhs

def unary (op : UnaryOp) (operand : Expr) : Expr :=
  .unary { ty := if op = .not then .bool else .int } op operand

def len (operand : Expr) : Expr := .len { ty := .int } operand

def chop (operand : Expr) : Expr := .chop { ty := .string } operand

def assign (target : Expr) (op : AssignOp) (value : Expr) : Stmt :=
  .assign {} target none op value

/-- Plain or compound assignment to one element of a list variable. -/
def assignIndex (target position : Expr) (op : AssignOp) (value : Expr) : Stmt :=
  .assign {} target (some position) op value

def branch (cond : Expr) (thenBody elseBody : List Stmt) : Stmt :=
  .branch {} cond thenBody elseBody none

def loop (body : List Stmt) : Stmt := .loop {} body none

def exitLoop : Stmt := .exitLoop {}

def nextLoop : Stmt := .nextLoop {}

def ret (value : Option Expr) : Stmt := .ret {} value

def put (value : Expr) : Stmt := .put {} value

def eval (expr : Expr) : Stmt := .eval {} expr

end StackBackend.Build
