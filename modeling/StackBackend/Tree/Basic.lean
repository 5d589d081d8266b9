import StackBackend.Span
import StackBackend.Ty

/-!
# The checked tree

Expressions and statements as the front end hands them over: every name resolved, every
expression annotated with its type and its place in the source.

- `Expr` is an expression; what was recorded about a node is its `Note`;
- `Stmt` is a statement; a block is a list of statements;
- `Expr.withTy` and `Expr.withSpan` replace one part of a note and keep the rest;
- equality of expressions and statements is decidable.

The tree is not required to be well typed: lowering reports what it cannot accept.
-/

namespace StackBackend

/-! ## Operators -/

/-- Operators with two operands: arithmetic, then comparison. -/
inductive BinaryOp where
  | add | sub | mul | div | mod
  | eq | ne | gt | ge | lt | le
deriving DecidableEq, Inhabited

namespace BinaryOp

/-- All operators, in order. -/
def all : List BinaryOp := [add, sub, mul, div, mod, eq, ne, gt, ge, lt, le]

/-- The operator's name, in messages and in the exchange format. -/
def name : BinaryOp → String
  | add => "Add" | sub => "Sub" | mul => "Mul" | div => "Div" | mod => "Mod"
  | eq => "Eq" | ne => "Ne" | gt => "Gt" | ge => "Ge" | lt => "Lt" | le => "Le"

/-- Whether the operator takes and yields integers. -/
def isArithmetic : BinaryOp → Bool
  | add | sub | mul | div | mod => true
  | _ => false

/-- Whether the operator compares for equality or inequality. -/
def isEquality : BinaryOp → Bool
  | eq | ne => true
  | _ => false

end BinaryOp

/-- Operators with one operand. -/
inductive UnaryOp where
  | neg | not | inc | dec
deriving DecidableEq, Inhabited

namespace UnaryOp

/-- All operators, in order. -/
def all : List UnaryOp := [neg, not, inc, dec]

/-- The operator's name, in messages and in the exchange format. -/
def name : UnaryOp → String
  | neg => "Neg" | not => "Not" | inc => "Inc" | dec => "Dec"

end UnaryOp

/-- Assignment operators: plain assignment and the compound forms. -/
inductive AssignOp where
  | assign | add | sub | mul | div | mod
deriving DecidableEq, Inhabited

namespace AssignOp

/-- All operators, in order. -/
def all : List AssignOp := [assign, add, sub, mul, div, mod]

/-- The operator's name in the exchange format. -/
def name : AssignOp → String
  | assign => "Assign" | add => "Add" | sub => "Sub" | mul => "Mul" | div => "Div" | mod => "Mod"

/-- The arithmetic a compound assignment performs; none for plain assignment. -/
def binary? : AssignOp → Option BinaryOp
  | assign => none
  | add => some .add
  | sub => some .sub
  | mul => some .mul
  | div => some .div
  | mod => some .mod

end AssignOp

/-! ## Expressions -/

/-- What the front end recorded about an expression. -/
structure Note where
  ty : Ty
  span : Span := {}
deriving DecidableEq, Inhabited

/-- An expression.  The callee of a call and the base of an index are expressions too, and an
index is a list of expressions: a tree may hold more than the language allows. -/
inductive Expr where
  | int (note : Note) (value : Int32)
  | bool (note : Note) (value : Bool)
  | str (note : Note) (value : String)
  | ident (note : Note) (name : String)
  /-- A pointer to the function of this name. -/
  | fnPtr (note : Note) (name : String)
  | list (note : Note) (elements : List Expr)
  | call (note : Note) (callee : Expr) (args : List Expr)
  | index (note : Note) (base : Expr) (indices : List Expr)
  | binary (note : Note) (op : BinaryOp) (lhs rhs : Expr)
  | unary (note : Note) (op : UnaryOp) (operand : Expr)
  /-- Length of a text or a list. -/
  | len (note : Note) (operand : Expr)
  /-- A text without its last character. -/
  | chop (note : Note) (operand : Expr)
deriving Inhabited

namespace Expr

/-- What was recorded about this node. -/
def note : Expr → Note
  | int note _ | bool note _ | str note _ | ident note _ | fnPtr note _ | list note _
  | call note _ _ | index note _ _ | binary note _ _ _ | unary note _ _ | len note _
  | chop note _ => note

def ty (e : Expr) : Ty := e.note.ty

def span (e : Expr) : Span := e.note.span

/-- The same node with another note. -/
def withNote (note : Note) : Expr → Expr
  | int _ value => int note value
  | bool _ value => bool note value
  | str _ value => str note value
  | ident _ name => ident note name
  | fnPtr _ name => fnPtr note name
  | list _ elements => list note elements
  | call _ callee args => call note callee args
  | index _ base indices => index note base indices
  | binary _ op lhs rhs => binary note op lhs rhs
  | unary _ op operand => unary note op operand
  | len _ operand => len note operand
  | chop _ operand => chop note operand

/-- The same node annotated with another type. -/
def withTy (e : Expr) (ty : Ty) : Expr := e.withNote { e.note with ty }

/-- The same node at another place. -/
def withSpan (e : Expr) (span : Span) : Expr := e.withNote { e.note with span }

/-- The name, if this node is an identifier. -/
def ident? : Expr → Option String
  | ident _ name => some name
  | _ => none

@[simp] theorem note_withNote (note : Note) (e : Expr) : (e.withNote note).note = note := by
  cases e <;> rfl

@[simp] theorem ty_withSpan (e : Expr) (span : Span) : (e.withSpan span).ty = e.ty := by
  simp [withSpan, ty]

@[simp] theorem span_withTy (e : Expr) (ty : Ty) : (e.withTy ty).span = e.span := by
  simp [withTy, span]

/-! ### Equality -/

mutual

/-- Equality of expressions, as a test. -/
def beq : Expr → Expr → Bool
  | int n a, int m b => n == m && a == b
  | bool n a, bool m b => n == m && a == b
  | str n a, str m b => n == m && a == b
  | ident n a, ident m b => n == m && a == b
  | fnPtr n a, fnPtr m b => n == m && a == b
  | list n as, list m bs => n == m && beqs as bs
  | call n f as, call m g bs => n == m && f.beq g && beqs as bs
  | index n a as, index m b bs => n == m && a.beq b && beqs as bs
  | binary n o a b, binary m p c d => n == m && o == p && a.beq c && b.beq d
  | unary n o a, unary m p b => n == m && o == p && a.beq b
  | len n a, len m b => n == m && a.beq b
  | chop n a, chop m b => n == m && a.beq b
  | _, _ => false

/-- Equality of lists of expressions, as a test. -/
def beqs : List Expr → List Expr → Bool
  | [], [] => true
  | a :: as, b :: bs => a.beq b && beqs as bs
  | _, _ => false

end

mutual

/-- The test decides equality. -/
theorem beq_iff (a b : Expr) : a.beq b = true ↔ a = b := by
  cases a <;> cases b <;> simp [beq]
  case list.list n as m bs => rw [beqs_iff as bs]; simp
  case call.call n f as m g bs => rw [beq_iff f g, beqs_iff as bs]; simp [and_assoc]
  case index.index n a as m b bs => rw [beq_iff a b, beqs_iff as bs]; simp [and_assoc]
  case binary.binary n o a b m p c d => rw [beq_iff a c, beq_iff b d]; simp [and_assoc]
  case unary.unary n o a m p b => rw [beq_iff a b]; simp [and_assoc]
  case len.len n a m b => rw [beq_iff a b]; simp
  case chop.chop n a m b => rw [beq_iff a b]; simp

/-- The test on lists decides equality. -/
theorem beqs_iff (as bs : List Expr) : beqs as bs = true ↔ as = bs := by
  cases as <;> cases bs <;> simp [beqs]
  case cons.cons a as b bs => rw [beq_iff a b, beqs_iff as bs]

end

instance : DecidableEq Expr := fun a b => decidable_of_iff _ (beq_iff a b)

end Expr

/-! ## Scope names

A block may name the scope its contents are resolved in, so the tree knows the names of scopes;
the scopes themselves live in the symbol table. -/

/-- The name of a scope: its place in the symbol table. -/
structure ScopeId where
  index : UInt32
deriving DecidableEq, Inhabited

namespace ScopeId

/-- The outermost scope. -/
def global : ScopeId := ⟨0⟩

/-- The place in the symbol table. -/
def toNat (id : ScopeId) : Nat := id.index.toNat

/-- The scope at a place in the symbol table. -/
def ofNat (n : Nat) : ScopeId := ⟨UInt32.ofNat n⟩

/-- The text `#n`. -/
def text (id : ScopeId) : String := "#" ++ toString id.toNat

end ScopeId

/-! ## Statements -/

inductive Stmt where
  /-- Store a value in a variable, or in one element of a list variable. -/
  | assign (span : Span) (target : Expr) (index : Option Expr) (op : AssignOp) (value : Expr)
  | branch (span : Span) (cond : Expr) (thenBody elseBody : List Stmt) (scope : Option ScopeId)
  | loop (span : Span) (body : List Stmt) (scope : Option ScopeId)
  /-- Leave the innermost loop. -/
  | exitLoop (span : Span)
  /-- Start the innermost loop over. -/
  | nextLoop (span : Span)
  | ret (span : Span) (value : Option Expr)
  /-- Print a value on a line of its own. -/
  | put (span : Span) (value : Expr)
  /-- Evaluate and drop the value. -/
  | eval (span : Span) (expr : Expr)
deriving Inhabited

namespace Stmt

def span : Stmt → Span
  | assign span .. | branch span .. | loop span .. | exitLoop span | nextLoop span
  | ret span .. | put span .. | eval span .. => span

/-- The same statement at another place. -/
def withSpan (span : Span) : Stmt → Stmt
  | assign _ target index op value => assign span target index op value
  | branch _ cond thenBody elseBody scope => branch span cond thenBody elseBody scope
  | loop _ body scope => loop span body scope
  | exitLoop _ => exitLoop span
  | nextLoop _ => nextLoop span
  | ret _ value => ret span value
  | put _ value => put span value
  | eval _ expr => eval span expr

/-- The same statement resolved in another scope; only blocks have one. -/
def withScope (scope : ScopeId) : Stmt → Stmt
  | branch span cond thenBody elseBody _ => branch span cond thenBody elseBody (some scope)
  | loop span body _ => loop span body (some scope)
  | other => other

/-! ### Equality -/

mutual

/-- Equality of statements, as a test. -/
def beq : Stmt → Stmt → Bool
  | assign s t i o v, assign s' t' i' o' v' => s == s' && t == t' && i == i' && o == o' && v == v'
  | branch s c a b i, branch s' c' a' b' i' =>
      s == s' && c == c' && beqs a a' && beqs b b' && i == i'
  | loop s a i, loop s' a' i' => s == s' && beqs a a' && i == i'
  | exitLoop s, exitLoop s' => s == s'
  | nextLoop s, nextLoop s' => s == s'
  | ret s v, ret s' v' => s == s' && v == v'
  | put s v, put s' v' => s == s' && v == v'
  | eval s v, eval s' v' => s == s' && v == v'
  | _, _ => false

/-- Equality of blocks, as a test. -/
def beqs : List Stmt → List Stmt → Bool
  | [], [] => true
  | a :: as, b :: bs => a.beq b && beqs as bs
  | _, _ => false

end

mutual

/-- The test decides equality. -/
theorem beq_iff (a b : Stmt) : a.beq b = true ↔ a = b := by
  cases a <;> cases b <;> simp [beq, and_assoc]
  case branch.branch s c a b i s' c' a' b' i' => rw [beqs_iff a a', beqs_iff b b']; simp
  case loop.loop s a i s' a' i' => rw [beqs_iff a a']; simp

/-- The test on blocks decides equality. -/
theorem beqs_iff (as bs : List Stmt) : beqs as bs = true ↔ as = bs := by
  cases as <;> cases bs <;> simp [beqs]
  case cons.cons a as b bs => rw [beq_iff a b, beqs_iff as bs]

end

instance : DecidableEq Stmt := fun a b => decidable_of_iff _ (beq_iff a b)

end Stmt

/-! ## Declarations -/

/-- A parameter: its name and type. -/
structure Param where
  name : String
  ty : Ty
deriving DecidableEq, Inhabited

structure FunctionDecl where
  name : String
  params : List Param
  body : List Stmt
  span : Span := {}
deriving DecidableEq, Inhabited

/-- The entry unit: the statements outside every function, and the scope they are resolved in. -/
structure MainUnit where
  body : List Stmt
  scope : ScopeId
  span : Span := {}
deriving DecidableEq, Inhabited

/-- A whole tree: the entry unit and the declared functions. -/
structure Program where
  main : MainUnit
  functions : List FunctionDecl := []
deriving DecidableEq, Inhabited

/-- The first declaration of a function. -/
def Program.function? (p : Program) (name : String) : Option FunctionDecl :=
  p.functions.find? (·.name == name)

end StackBackend
