import StackBackend.Assembly.Text
import StackBackend.CheckedProgram
import StackBackend.Lowering.Statement

/-!
# From a checked program to a class

`compile` lowers a checked program to one class.  Its methods are, in order, a static `main` that
makes an instance, one method for each function to emit, and the constructor, which runs the entry
unit.

Labels are handed out once for the whole class, slots afresh for each body.  The return type of a
function is known to the bodies from its own on.

- `lowerFunction` and `lowerEntry` are the methods of functions and of the entry unit;
- `assemble` is the class and the number of labels in it, `compile` the class alone;
- `writeProgram` compiles and writes the assembly text to a sink.
-/

namespace StackBackend

/-- Settings of a compilation. -/
structure Config where
  className : String := "Main"
  /-- The operand stack limit declared on every method. -/
  stackLimit : Nat := 128
  /-- The limit on local slots declared on every method. -/
  localsLimit : Nat := 128
deriving DecidableEq, Inhabited

namespace Lowering

/-- What bodies share: the labels taken, and the return types known. -/
structure Shared where
  labels : Labels := {}
  returns : NameMap Ty := {}

/-- A method with the declared limits. -/
def method (config : Config) (name descriptor : String) (isStatic : Bool) (code : Code) : Method :=
  { name, descriptor, isStatic, code
    stackLimit := config.stackLimit, localsLimit := config.localsLimit }

/-- The entry point: make an instance and return. -/
def entryPoint (config : Config) : Method :=
  method config "main" "([Ljava/lang/String;)V" true
    #[.new config.className, .invoke .special ⟨config.className, constructorName, "()V"⟩, .ret]

/-- End a body that returns nothing in a return. -/
def closeBody (ret : Ty) (code : Code) : Code :=
  if ret.isVoid && !code.endsWithReturn then code.push .ret else code

/-- Lower a body whose parameters have their slots. -/
def lowerBody (symbols : SymbolTable) (shared : Shared) (slots : Slots) (body : List Stmt)
    (scope : ScopeId) (ret : Ty) : Except LoweringError (Code × Shared) :=
  match (lowerBlock ⟨symbols, shared.returns⟩ scope body).run
    { labels := shared.labels, slots } with
  | (.error e, _) => .error e
  | (.ok _, s) => .ok (closeBody ret s.code, { shared with labels := s.labels })

/-- Slots for parameters, in order. -/
def paramSlots : Slots → List Param → Except LoweringError Slots
  | slots, [] => .ok slots
  | slots, p :: params =>
    match slots.slot (.var p.name) with
    | some (_, slots) => paramSlots slots params
    | none => .error .outOfSlots

/-- Lower a function by name. -/
def lowerFunction (config : Config) (p : CheckedProgram) (shared : Shared) (name : String) :
    Except LoweringError (Method × Shared) :=
  match p.symbols.functionBinding? .global name, p.program.function? name with
  | some binding, some decl =>
    if p.symbols.has binding.scope then do
      let shared := { shared with returns := shared.returns.insert name binding.returnType }
      let slots ← paramSlots .empty decl.params
      let (code, shared) ←
        lowerBody p.symbols shared slots decl.body binding.scope binding.returnType
      let descriptor := methodDescriptor binding.argTypes binding.returnType
      .ok (method config name descriptor false code, shared)
    else .error (.unresolved .scope name)
  | _, _ => .error (.unresolved .function name)

/-- Lower functions by name, in order. -/
def lowerFunctions (config : Config) (p : CheckedProgram) :
    Shared → List String → Except LoweringError (List Method × Shared)
  | shared, [] => .ok ([], shared)
  | shared, name :: names => do
    let (method, shared) ← lowerFunction config p shared name
    let (methods, shared) ← lowerFunctions config p shared names
    .ok (method :: methods, shared)

/-- Lower the entry unit to the constructor.  A scope the table does not have counts as the global
one. -/
def lowerEntry (config : Config) (p : CheckedProgram) (shared : Shared) :
    Except LoweringError (Method × Shared) := do
  let main := p.program.main
  let scope := p.symbols.enter .global (some main.scope)
  let (code, shared) ← lowerBody p.symbols shared .empty main.body scope .void
  let prologue : Code := #[.load 0, .construct .objectInit]
  .ok (method config constructorName "()V" false (prologue ++ code), shared)

end Lowering

open Lowering

/-- **Lower a checked program to a class**, with the number of labels in it. -/
def assemble (p : CheckedProgram) (config : Config) : Except LoweringError (ClassFile × Nat) :=
  match p.symbols.validate with
  | .error e => .error (.unresolved .scope e.scope.text)
  | .ok _ => do
    let (functions, shared) ← lowerFunctions config p {} p.reachable
    let (entry, shared) ← lowerEntry config p shared
    .ok ({ name := config.className, superName := ClassName.object
           methods := entryPoint config :: (functions ++ [entry]) }, shared.labels.issued)

/-- Lower a checked program to a class. -/
def compile (p : CheckedProgram) (config : Config) : Except LoweringError ClassFile :=
  (assemble p config).map Prod.fst

/-! ## Writing -/

/-- Why a program is not written. -/
inductive WriteError where
  | lowering (error : LoweringError)
  /-- The text could not be written. -/
  | output (reason : String)
deriving DecidableEq, Inhabited

def WriteError.message : WriteError → String
  | lowering error => error.message
  | output reason => "failed to write output: " ++ reason

/-- Compile a program and write its assembly text. -/
def writeProgram (p : CheckedProgram) (config : Config) (sink : Sink) :
    Except WriteError (ClassFile × Sink) :=
  match compile p config with
  | .error e => .error (.lowering e)
  | .ok c =>
    match sink.write? c.text with
    | some sink => .ok (c, sink)
    | none => .error (.output Sink.closed)

end StackBackend
