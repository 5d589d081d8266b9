import StackBackend.CheckedProgram
import StackBackend.Json.Value

/-!
# Checked programs as documents

The front end and the back end exchange checked programs as JSON documents.  A record is an object
with one member for each field, all fields written; a choice is its name, or an object with the
name of the alternative as its only member.

`CheckedProgram.toJson` and the functions under it write documents; reading them is the business of
`StackBackend.Document.Decode`.
-/

namespace StackBackend

/-! ## Types and places -/

namespace Ty

mutual

def toJson : Ty → Json
  | int => .str "Int"
  | bool => .str "Bool"
  | string => .str "String"
  | list element => .obj [("List", element.toJson)]
  | fptr args ret => .obj [("Fptr", .obj [("args", .arr (toJsons args)), ("ret", ret.toJson)])]
  | void => .str "Void"

def toJsons : List Ty → List Json
  | [] => []
  | ty :: rest => ty.toJson :: toJsons rest

end

end Ty

def Pos.toJson (p : Pos) : Json :=
  .obj [("line", .int p.line.toNat), ("column", .int p.column.toNat)]

def Span.toJson (s : Span) : Json :=
  .obj [("start", s.start.toJson), ("end", s.stop.toJson)]

def ScopeId.toJson (id : ScopeId) : Json := .int id.toNat

namespace Json

/-- A value that may be absent. -/
def ofOption {α : Type} (toJson : α → Json) : Option α → Json
  | some a => toJson a
  | none => null

end Json

/-! ## Trees -/

namespace Expr

/-- A node: what it is, its type and its place. -/
def nodeJson (note : Note) (kind : Json) : Json :=
  .obj [("kind", kind), ("ty", note.ty.toJson), ("span", note.span.toJson)]

mutual

def toJson : Expr → Json
  | int note value => nodeJson note (.obj [("Int", .int value.toInt)])
  | bool note value => nodeJson note (.obj [("Bool", .bool value)])
  | str note value => nodeJson note (.obj [("Str", .str value)])
  | ident note name => nodeJson note (.obj [("Ident", .str name)])
  | fnPtr note name => nodeJson note (.obj [("FnPtr", .str name)])
  | list note elements => nodeJson note (.obj [("List", .arr (toJsons elements))])
  | call note callee args =>
      nodeJson note (.obj [("Access", .obj [("base", callee.toJson),
        ("access", .obj [("Call", .arr (toJsons args))])])])
  | index note base indices =>
      nodeJson note (.obj [("Access", .obj [("base", base.toJson),
        ("access", .obj [("Index", .arr (toJsons indices))])])])
  | binary note op lhs rhs =>
      nodeJson note (.obj [("Binary", .obj [("op", .str op.name), ("lhs", lhs.toJson),
        ("rhs", rhs.toJson)])])
  | unary note op operand =>
      nodeJson note (.obj [("Unary", .obj [("op", .str op.name), ("operand", operand.toJson)])])
  | len note operand => nodeJson note (.obj [("Len", operand.toJson)])
  | chop note operand => nodeJson note (.obj [("Chop", operand.toJson)])

def toJsons : List Expr → List Json
  | [] => []
  | e :: rest => e.toJson :: toJsons rest

end

end Expr

namespace Stmt

/-- A statement: what it is and its place. -/
def stmtJson (span : Span) (kind : Json) : Json :=
  .obj [("kind", kind), ("span", span.toJson)]

mutual

def toJson : Stmt → Json
  | assign span target index op value =>
      stmtJson span (.obj [("Assign", .obj [("target", target.toJson),
        ("index", .ofOption Expr.toJson index), ("op", .str op.name), ("value", value.toJson)])])
  | branch span cond thenBody elseBody scope =>
      stmtJson span (.obj [("If", .obj [("cond", cond.toJson),
        ("then_body", .arr (toJsons thenBody)), ("else_body", .arr (toJsons elseBody)),
        ("scope", .ofOption ScopeId.toJson scope)])])
  | loop span body scope =>
      stmtJson span (.obj [("Loop", .obj [("body", .arr (toJsons body)),
        ("scope", .ofOption ScopeId.toJson scope)])])
  | exitLoop span => stmtJson span (.str "Break")
  | nextLoop span => stmtJson span (.str "Next")
  | ret span value => stmtJson span (.obj [("Return", .ofOption Expr.toJson value)])
  | put span value => stmtJson span (.obj [("Put", value.toJson)])
  | eval span expr => stmtJson span (.obj [("Expr", expr.toJson)])

def toJsons : List Stmt → List Json
  | [] => []
  | stmt :: rest => stmt.toJson :: toJsons rest

end

end Stmt

def Param.toJson (p : Param) : Json :=
  .obj [("name", .str p.name), ("ty", p.ty.toJson)]

def FunctionDecl.toJson (d : FunctionDecl) : Json :=
  .obj [("name", .str d.name), ("args", .arr (d.params.map Param.toJson)),
    ("body", .arr (Stmt.toJsons d.body)), ("span", d.span.toJson)]

def MainUnit.toJson (m : MainUnit) : Json :=
  .obj [("body", .arr (Stmt.toJsons m.body)), ("scope", m.scope.toJson), ("span", m.span.toJson)]

def Program.toJson (p : Program) : Json :=
  .obj [("main", p.main.toJson), ("functions", .arr (p.functions.map FunctionDecl.toJson))]

/-! ## Symbol tables -/

def VariableBinding.toJson (b : VariableBinding) : Json :=
  .obj [("name", .str b.name), ("ty", b.ty.toJson)]

def FunctionBinding.toJson (b : FunctionBinding) : Json :=
  .obj [("name", .str b.name), ("arg_types", .arr (Ty.toJsons b.argTypes)),
    ("return_type", b.returnType.toJson), ("scope", b.scope.toJson)]

def Binding.toJson : Binding → Json
  | var b => .obj [("Variable", b.toJson)]
  | fn b => .obj [("Function", b.toJson)]

/-- The document of a scope.  Bindings stand under the name they are looked up with. -/
def Scope.toJson (s : Scope) : Json :=
  .obj [("parent", .ofOption ScopeId.toJson s.parent),
    ("bindings", .obj (s.bindings.entries.map fun e => (e.1, e.2.toJson)))]

def SymbolTable.toJson (t : SymbolTable) : Json :=
  .obj [("scopes", .arr (t.scopes.map Scope.toJson))]

/-- The document of a checked program. -/
def CheckedProgram.toJson (p : CheckedProgram) : Json :=
  .obj [("program", p.program.toJson), ("symbols", p.symbols.toJson),
    ("reachable", .arr (p.reachable.map .str))]

end StackBackend
