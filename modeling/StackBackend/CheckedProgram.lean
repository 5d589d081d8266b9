import StackBackend.Scope.Table

/-!
# Checked programs

What lowering starts from: the tree, its symbol table, and the names of the functions to emit, in
emission order.

`ProgramDraft` collects a checked program declaration by declaration.  It fills in the symbol
table as a checker would: each function is bound globally, its parameters are bound in its own
scope, and every variable that a body assigns to is bound there with the type of the first
assignment in textual order.
-/

namespace StackBackend

/-- A tree together with all that lowering needs to know about it. -/
structure CheckedProgram where
  program : Program
  symbols : SymbolTable
  /-- The functions to emit, in order. -/
  reachable : List String
deriving DecidableEq, Inhabited

/-! ## Locals of a body -/

namespace SymbolTable

mutual

/-- Bind the variable a statement assigns to, unless its name is already bound in the scope
itself. -/
def declareLocal (t : SymbolTable) (id : ScopeId) : Stmt → SymbolTable
  | .assign _ target _ _ _ =>
    match target.ident? with
    | some name =>
      if (t.lookupLocal id name).isSome then t
      else t.defineVariable id name target.ty
    | none => t
  | .branch _ _ thenBody elseBody _ =>
    (t.declareLocals id thenBody).declareLocals id elseBody
  | .loop _ body _ => t.declareLocals id body
  | _ => t

/-- Bind the variables a block assigns to, in textual order. -/
def declareLocals (t : SymbolTable) (id : ScopeId) : List Stmt → SymbolTable
  | [] => t
  | stmt :: rest => (t.declareLocal id stmt).declareLocals id rest

end

end SymbolTable

/-! ## Drafts -/

/-- A checked program under construction. -/
structure ProgramDraft where
  symbols : SymbolTable := .initial
  functions : List FunctionDecl := []
  reachable : List String := []

namespace ProgramDraft

/-- Declare a function without emitting it. -/
def declare (d : ProgramDraft) (name : String) (params : List Param) (ret : Ty)
    (body : List Stmt) : ProgramDraft :=
  let (scope, symbols) := d.symbols.defineFunction name params ret
  { d with
    symbols := symbols.declareLocals scope body
    functions := d.functions ++ [{ name, params, body }] }

/-- Declare a function and emit it. -/
def function (d : ProgramDraft) (name : String) (params : List Param) (ret : Ty)
    (body : List Stmt) : ProgramDraft :=
  let declared := d.declare name params ret body
  { declared with reachable := declared.reachable ++ [name] }

/-- Close the draft with the entry unit, which gets a scope of its own. -/
def finish (d : ProgramDraft) (body : List Stmt) : CheckedProgram :=
  let (scope, symbols) := d.symbols.addScope .global
  { program := { main := { body, scope }, functions := d.functions }
    symbols := symbols.declareLocals scope body
    reachable := d.reachable }

end ProgramDraft

end StackBackend
