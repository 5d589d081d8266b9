import StackBackend.NameMap
import StackBackend.Tree.Basic

/-!
# Symbol tables

The front end leaves a table of scopes.  A scope binds names to variables and functions and may
link to a parent; looking a name up walks outward along the links.

- `SymbolTable.lookup` is the innermost binding of a name as seen from a scope;
- `SymbolTable.validate` accepts a table whose links all point to earlier scopes;
- `SymbolTable.define` and `SymbolTable.addScope` build tables, `defineFunction` declares a
  function together with the scope of its parameters.

A table need not be valid to be searched.  The walk visits at most as many scopes as the table
holds, so it ends on a table with cyclic links too.
-/

namespace StackBackend

/-- A name bound to storage of one type. -/
structure VariableBinding where
  name : String
  ty : Ty
deriving DecidableEq, Inhabited

/-- A name bound to a function: its signature and the scope of its parameters and locals. -/
structure FunctionBinding where
  name : String
  argTypes : List Ty
  returnType : Ty
  scope : ScopeId
deriving DecidableEq, Inhabited

/-- What a name stands for. -/
inductive Binding where
  | var (binding : VariableBinding)
  | fn (binding : FunctionBinding)
deriving DecidableEq, Inhabited

namespace Binding

/-- The name a binding gives itself. -/
def name : Binding → String
  | var b => b.name
  | fn b => b.name

/-- The variable, if this is one. -/
def var? : Binding → Option VariableBinding
  | var b => some b
  | fn _ => none

/-- The function, if this is one. -/
def fn? : Binding → Option FunctionBinding
  | var _ => none
  | fn b => some b

end Binding

/-- One scope: a link to its parent, and its own bindings by the name they are looked up with. -/
structure Scope where
  parent : Option ScopeId := none
  bindings : NameMap Binding := {}
deriving DecidableEq, Inhabited

/-- Why a table is refused. -/
inductive ScopeError where
  /-- The table is empty. -/
  | noGlobal
  /-- A scope links to itself or to a later scope. -/
  | badParent (child parent : ScopeId)
deriving DecidableEq, Inhabited

namespace ScopeError

/-- The scope at fault. -/
def scope : ScopeError → ScopeId
  | noGlobal => .global
  | badParent child _ => child

def message : ScopeError → String
  | noGlobal => "symbol table has no global scope"
  | badParent child parent =>
      "scope " ++ child.text ++ " names " ++ parent.text ++ " as parent, which does not enclose it"

end ScopeError

/-- All scopes of a program.  The scope named `#n` stands at place `n`. -/
structure SymbolTable where
  scopes : List Scope
deriving DecidableEq

namespace SymbolTable

/-- A table with an empty global scope and nothing else. -/
def initial : SymbolTable := ⟨[{}]⟩

instance : Inhabited SymbolTable := ⟨initial⟩

def size (t : SymbolTable) : Nat := t.scopes.length

/-- The scope of this name. -/
def scope? (t : SymbolTable) (id : ScopeId) : Option Scope := t.scopes[id.toNat]?

/-- Whether the table has a scope of this name. -/
def has (t : SymbolTable) (id : ScopeId) : Bool := (t.scope? id).isSome

/-- The parent of a scope, if it links to a scope the table has. -/
def parent? (t : SymbolTable) (id : ScopeId) : Option ScopeId :=
  match t.scope? id with
  | some scope => scope.parent.filter t.has
  | none => none

/-! ## Validity -/

/-- The first scope, counting from `place`, whose link does not point to an earlier scope. -/
def firstBadParent? : Nat → List Scope → Option ScopeError
  | _, [] => none
  | place, scope :: rest =>
    match scope.parent with
    | some parent =>
      if (ScopeId.ofNat place).index ≤ parent.index then
        some (.badParent (.ofNat place) parent)
      else firstBadParent? (place + 1) rest
    | none => firstBadParent? (place + 1) rest

/-- Check that there is a global scope and that every link points to an earlier scope. -/
def validate (t : SymbolTable) : Except ScopeError Unit :=
  if t.scopes.isEmpty then .error .noGlobal
  else match firstBadParent? 0 t.scopes with
    | some e => .error e
    | none => .ok ()

/-! ## Look-up -/

/-- The binding of a name in one scope. -/
def lookupLocal (t : SymbolTable) (id : ScopeId) (name : String) : Option Binding :=
  match t.scope? id with
  | some scope => scope.bindings.find? name
  | none => none

/-- Walk outward from a scope through at most `steps` scopes, to the first that binds the name. -/
def walk (t : SymbolTable) (name : String) : Nat → ScopeId → Option Binding
  | 0, _ => none
  | steps + 1, id =>
    match t.lookupLocal id name with
    | some binding => some binding
    | none =>
      match t.parent? id with
      | some parent => t.walk name steps parent
      | none => none

/-- The innermost binding of a name visible from a scope. -/
def lookup (t : SymbolTable) (id : ScopeId) (name : String) : Option Binding :=
  t.walk name t.size id

/-- The function a name stands for.  A variable that shadows a function hides it. -/
def functionBinding? (t : SymbolTable) (id : ScopeId) (name : String) : Option FunctionBinding :=
  (t.lookup id name).bind Binding.fn?

theorem functionBinding?_eq_some {t : SymbolTable} {id : ScopeId} {name : String}
    {b : FunctionBinding} :
    t.functionBinding? id name = some b ↔ t.lookup id name = some (.fn b) := by
  rw [functionBinding?, Option.bind_eq_some_iff]
  constructor
  · rintro ⟨binding, hlookup, hfn⟩
    cases binding with
    | var _ => cases hfn
    | fn _ =>
      cases hfn
      exact hlookup
  · intro hlookup
    exact ⟨_, hlookup, rfl⟩

/-- The variable a name stands for.  A function that shadows a variable hides it. -/
def variableBinding? (t : SymbolTable) (id : ScopeId) (name : String) : Option VariableBinding :=
  (t.lookup id name).bind Binding.var?

/-- The scope of a nested block; one the table does not have leaves the enclosing scope in
force. -/
def enter (t : SymbolTable) (current : ScopeId) : Option ScopeId → ScopeId
  | some id => if t.has id then id else current
  | none => current

/-! ## Building -/

/-- Open a scope inside `parent`, which should exist.  Returns the name of the new scope. -/
def addScope (t : SymbolTable) (parent : ScopeId) : ScopeId × SymbolTable :=
  (.ofNat t.size, ⟨t.scopes ++ [{ parent := some parent }]⟩)

/-- Bind a name in a scope under the name the binding gives itself, replacing an earlier binding.
The result is unchanged if there is no such scope. -/
def define (t : SymbolTable) (id : ScopeId) (binding : Binding) : SymbolTable :=
  ⟨t.scopes.modify id.toNat fun scope =>
    { scope with bindings := scope.bindings.insert binding.name binding }⟩

/-- Bind a variable in a scope. -/
def defineVariable (t : SymbolTable) (id : ScopeId) (name : String) (ty : Ty) : SymbolTable :=
  t.define id (.var { name, ty })

/-- Bind parameters as variables of a scope, in order. -/
def defineParams (t : SymbolTable) (id : ScopeId) (params : List Param) : SymbolTable :=
  params.foldl (fun t p => t.defineVariable id p.name p.ty) t

/-- Declare a global function together with its own scope, in which the parameters are bound.
Returns that scope. -/
def defineFunction (t : SymbolTable) (name : String) (params : List Param) (returnType : Ty) :
    ScopeId × SymbolTable :=
  let (scope, opened) := t.addScope .global
  let bound := opened.defineParams scope params
  (scope, bound.define .global
    (.fn { name, argTypes := params.map (·.ty), returnType, scope }))

end SymbolTable

end StackBackend
