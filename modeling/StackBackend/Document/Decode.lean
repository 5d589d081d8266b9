import StackBackend.CheckedProgram
import StackBackend.Json.Value

/-!
# Reading checked programs from documents

The reader accepts what the writer produces and some more.  A record may be an array of its
fields in order.  Spans, the function list, an `else` branch, the scope of a block and the index
of an assignment may be left out, and so may the parent of a scope.  A symbol table must be valid.

- `CheckedProgram.ofJson` and the functions under it read documents;
- `DecodeError` tells a table that is refused from a document of the wrong form.

The payload of an alternative with named fields has to be an object, except in a document that was
read from text (`fromText`), where it may be an array as well.

Readers of recursive types take a bound on how deep the document nests; at the height of the
document itself the bound is never what refuses it.
-/

namespace StackBackend

/-- Why a document is refused. -/
inductive DecodeError where
  /-- It does not have the form of a checked program. -/
  | malformed
  /-- Its symbol table is not valid. -/
  | scope (error : ScopeError)
deriving DecidableEq, Inhabited

namespace Document

/-! ## Parts of documents -/

/-- Read every item of a list. -/
def readAll? {α : Type} (read : Json → Option α) : List Json → Option (List α)
  | [] => some []
  | item :: rest =>
    match read item, readAll? read rest with
    | some a, some as => some (a :: as)
    | _, _ => none

def readList? {α : Type} (read : Json → Option α) : Json → Option (List α)
  | .arr items => readAll? read items
  | _ => none

/-- Read a value that `null` stands in for. -/
def readOption? {α : Type} (read : Json → Option α) : Json → Option (Option α)
  | .null => some none
  | value => (read value).map some

/-- Read a field that may be left out. -/
def readOr? {α : Type} (default : α) (read : Json → Option α) : Option Json → Option α
  | none => some default
  | some value => read value

def readString? : Json → Option String
  | .str value => some value
  | _ => none

def readBool? : Json → Option Bool
  | .bool value => some value
  | _ => none

def readInt32? : Json → Option Int32
  | .int value =>
    if Int32.minValue.toInt ≤ value ∧ value ≤ Int32.maxValue.toInt then some (Int32.ofInt value)
    else none
  | _ => none

def readUInt32? : Json → Option UInt32
  | .int value =>
    if 0 ≤ value ∧ value < UInt32.size then some (UInt32.ofNat value.toNat) else none
  | _ => none

def readUInt64? : Json → Option UInt64
  | .int value =>
    if 0 ≤ value ∧ value < UInt64.size then some (UInt64.ofNat value.toNat) else none
  | _ => none

/-- Read the name of one of several alternatives without payload. -/
def readNamed? {α : Type} (name : α → String) (all : List α) (value : Json) : Option α :=
  match value.variant? with
  | some (found, payload) => if Json.isUnit payload then all.find? (name · == found) else none
  | none => none

/-- The fields of an alternative's payload. -/
def payload? (fromText : Bool) (names : List String) (value : Json) :
    Option (List (Option Json)) :=
  if fromText then value.record? names else value.members? names

/-! ## Types and places -/

/-- Read a type, nested at most so deep. -/
def readTy? : Nat → Json → Option Ty
  | levels, value =>
    match value.variant? with
    | some ("Int", payload) => if Json.isUnit payload then some .int else none
    | some ("Bool", payload) => if Json.isUnit payload then some .bool else none
    | some ("String", payload) => if Json.isUnit payload then some .string else none
    | some ("Void", payload) => if Json.isUnit payload then some .void else none
    | some ("List", some element) =>
      match levels with
      | 0 => none
      | levels + 1 => (readTy? levels element).map .list
    | some ("Fptr", some signature) =>
      match levels with
      | 0 => none
      | levels + 1 =>
        match signature.record? ["args", "ret"] with
        | some [some args, some ret] => do
          let args ← readList? (readTy? levels) args
          let ret ← readTy? levels ret
          some (.fptr args ret)
        | _ => none
    | _ => none

def readPos? (value : Json) : Option Pos :=
  match value.record? ["line", "column"] with
  | some [some line, some column] => do
    let line ← readUInt64? line
    let column ← readUInt64? column
    some { line, column }
  | _ => none

def readSpan? (value : Json) : Option Span :=
  match value.record? ["start", "end"] with
  | some [some start, some stop] => do
    let start ← readPos? start
    let stop ← readPos? stop
    some { start, stop }
  | _ => none

def readScopeId? (value : Json) : Option ScopeId := (readUInt32? value).map ScopeId.mk

/-! ## Trees -/

/-- Read a call or an index, `read` reading expressions. -/
def readAccess? (read : Json → Option Expr) (note : Note) (base : Expr) (value : Json) :
    Option Expr :=
  match value.variant? with
  | some ("Call", some args) => (readList? read args).map (.call note base)
  | some ("Index", some indices) => (readList? read indices).map (.index note base)
  | _ => none

/-- Read what an expression is, `read` reading the expressions inside it. -/
def readExprKind? (fromText : Bool) (read : Json → Option Expr) (note : Note) (value : Json) :
    Option Expr :=
  match value.variant? with
  | some ("Int", some payload) => (readInt32? payload).map (.int note)
  | some ("Bool", some payload) => (readBool? payload).map (.bool note)
  | some ("Str", some payload) => (readString? payload).map (.str note)
  | some ("Ident", some payload) => (readString? payload).map (.ident note)
  | some ("FnPtr", some payload) => (readString? payload).map (.fnPtr note)
  | some ("List", some payload) => (readList? read payload).map (.list note)
  | some ("Access", some payload) =>
    match payload? fromText ["base", "access"] payload with
    | some [some base, some access] => do
      let base ← read base
      readAccess? read note base access
    | _ => none
  | some ("Binary", some payload) =>
    match payload? fromText ["op", "lhs", "rhs"] payload with
    | some [some op, some lhs, some rhs] => do
      let op ← readNamed? BinaryOp.name BinaryOp.all op
      let lhs ← read lhs
      let rhs ← read rhs
      some (.binary note op lhs rhs)
    | _ => none
  | some ("Unary", some payload) =>
    match payload? fromText ["op", "operand"] payload with
    | some [some op, some operand] => do
      let op ← readNamed? UnaryOp.name UnaryOp.all op
      let operand ← read operand
      some (.unary note op operand)
    | _ => none
  | some ("Len", some payload) => (read payload).map (.len note)
  | some ("Chop", some payload) => (read payload).map (.chop note)
  | _ => none

/-- Read an expression, nested at most so deep. -/
def readExpr? (fromText : Bool) : Nat → Json → Option Expr
  | 0, _ => none
  | levels + 1, value =>
    match value.record? ["kind", "ty", "span"] with
    | some [some kind, some ty, span] => do
      let ty ← readTy? levels ty
      let span ← readOr? {} readSpan? span
      readExprKind? fromText (readExpr? fromText levels) { ty, span } kind
    | _ => none

/-- Read an assignment, `read` reading expressions. -/
def readAssign? (read : Json → Option Expr) (span : Span) (value : Json) : Option Stmt :=
  match value.record? ["target", "index", "op", "value"] with
  | some [some target, index, some op, some value] => do
    let target ← read target
    let index ← readOr? none (readOption? read) index
    let op ← readNamed? AssignOp.name AssignOp.all op
    let value ← read value
    some (.assign span target index op value)
  | _ => none

/-- Read what a statement is, `readExpr` reading expressions and `read` the statements inside
it. -/
def readStmtKind? (fromText : Bool) (readExpr : Json → Option Expr) (read : Json → Option Stmt)
    (span : Span) (value : Json) : Option Stmt :=
  match value.variant? with
  | some ("Assign", some payload) => readAssign? readExpr span payload
  | some ("If", some payload) =>
    match payload? fromText ["cond", "then_body", "else_body", "scope"] payload with
    | some [some cond, some thenBody, elseBody, scope] => do
      let cond ← readExpr cond
      let thenBody ← readList? read thenBody
      let elseBody ← readOr? [] (readList? read) elseBody
      let scope ← readOr? none (readOption? readScopeId?) scope
      some (.branch span cond thenBody elseBody scope)
    | _ => none
  | some ("Loop", some payload) =>
    match payload? fromText ["body", "scope"] payload with
    | some [some body, scope] => do
      let body ← readList? read body
      let scope ← readOr? none (readOption? readScopeId?) scope
      some (.loop span body scope)
    | _ => none
  | some ("Break", payload) => if Json.isUnit payload then some (.exitLoop span) else none
  | some ("Next", payload) => if Json.isUnit payload then some (.nextLoop span) else none
  | some ("Return", some payload) => (readOption? readExpr payload).map (.ret span)
  | some ("Put", some payload) => (readExpr payload).map (.put span)
  | some ("Expr", some payload) => (readExpr payload).map (.eval span)
  | _ => none

/-- Read a statement, nested at most so deep. -/
def readStmt? (fromText : Bool) : Nat → Json → Option Stmt
  | 0, _ => none
  | levels + 1, value =>
    match value.record? ["kind", "span"] with
    | some [some kind, span] => do
      let span ← readOr? {} readSpan? span
      readStmtKind? fromText (readExpr? fromText levels) (readStmt? fromText levels) span kind
    | _ => none

def readParam? (levels : Nat) (value : Json) : Option Param :=
  match value.record? ["name", "ty"] with
  | some [some name, some ty] => do
    let name ← readString? name
    let ty ← readTy? levels ty
    some { name, ty }
  | _ => none

def readFunction? (fromText : Bool) (levels : Nat) (value : Json) : Option FunctionDecl :=
  match value.record? ["name", "args", "body", "span"] with
  | some [some name, some params, some body, span] => do
    let name ← readString? name
    let params ← readList? (readParam? levels) params
    let body ← readList? (readStmt? fromText levels) body
    let span ← readOr? {} readSpan? span
    some { name, params, body, span }
  | _ => none

def readMain? (fromText : Bool) (levels : Nat) (value : Json) : Option MainUnit :=
  match value.record? ["body", "scope", "span"] with
  | some [some body, some scope, span] => do
    let body ← readList? (readStmt? fromText levels) body
    let scope ← readScopeId? scope
    let span ← readOr? {} readSpan? span
    some { body, scope, span }
  | _ => none

def readProgram? (fromText : Bool) (levels : Nat) (value : Json) : Option Program :=
  match value.record? ["main", "functions"] with
  | some [some main, functions] => do
    let main ← readMain? fromText levels main
    let functions ← readOr? [] (readList? (readFunction? fromText levels)) functions
    some { main, functions }
  | _ => none

/-! ## Symbol tables -/

def readVariable? (levels : Nat) (value : Json) : Option VariableBinding :=
  match value.record? ["name", "ty"] with
  | some [some name, some ty] => do
    let name ← readString? name
    let ty ← readTy? levels ty
    some { name, ty }
  | _ => none

def readFunctionBinding? (levels : Nat) (value : Json) : Option FunctionBinding :=
  match value.record? ["name", "arg_types", "return_type", "scope"] with
  | some [some name, some argTypes, some returnType, some scope] => do
    let name ← readString? name
    let argTypes ← readList? (readTy? levels) argTypes
    let returnType ← readTy? levels returnType
    let scope ← readScopeId? scope
    some { name, argTypes, returnType, scope }
  | _ => none

def readBinding? (levels : Nat) (value : Json) : Option Binding :=
  match value.variant? with
  | some ("Variable", some payload) => (readVariable? levels payload).map .var
  | some ("Function", some payload) => (readFunctionBinding? levels payload).map .fn
  | _ => none

def readEntries? (levels : Nat) : List (String × Json) → Option (List (String × Binding))
  | [] => some []
  | member :: rest =>
    match readBinding? levels member.2, readEntries? levels rest with
    | some binding, some entries => some ((member.1, binding) :: entries)
    | _, _ => none

def readBindings? (levels : Nat) : Json → Option (NameMap Binding)
  | .obj members => (readEntries? levels members).map NameMap.ofList
  | _ => none

def readScope? (levels : Nat) (value : Json) : Option Scope :=
  match value.record? ["parent", "bindings"] with
  | some [parent, some bindings] => do
    let parent ← readOr? none (readOption? readScopeId?) parent
    let bindings ← readBindings? levels bindings
    some { parent, bindings }
  | _ => none

/-- Read a symbol table, valid or not. -/
def readScopes? (levels : Nat) (value : Json) : Option SymbolTable :=
  match value.record? ["scopes"] with
  | some [some scopes] => (readList? (readScope? levels) scopes).map SymbolTable.mk
  | _ => none

/-- Read a symbol table and check it. -/
def readTable (levels : Nat) (value : Json) : Except DecodeError SymbolTable :=
  match readScopes? levels value with
  | none => .error .malformed
  | some table =>
    match table.validate with
    | .error e => .error (.scope e)
    | .ok _ => .ok table

/-! ## Checked programs -/

/-- A part that has to be there. -/
def require {α : Type} : Option α → Except DecodeError α
  | some a => .ok a
  | none => .error .malformed

/-- Read a part if it is there. -/
def ifPresent {α : Type} (read : Json → Except DecodeError α) :
    Option Json → Except DecodeError (Option α)
  | none => .ok none
  | some value => (read value).map some

/-- Read a checked program.  The fields of an object are read in the order of their names and
missed afterwards; those of an array are read in their own order. -/
def readChecked (fromText : Bool) (levels : Nat) (value : Json) :
    Except DecodeError CheckedProgram :=
  let readTree (value : Json) := require (readProgram? fromText levels value)
  let readNames (value : Json) := require (readList? readString? value)
  match value with
  | .obj members => do
    let program ← ifPresent readTree (members.lookup "program")
    let reachable ← ifPresent readNames (members.lookup "reachable")
    let symbols ← ifPresent (readTable levels) (members.lookup "symbols")
    let program ← require program
    let symbols ← require symbols
    let reachable ← require reachable
    .ok { program, symbols, reachable }
  | .arr items => do
    let program ← require items[0]? >>= readTree
    let symbols ← require items[1]? >>= readTable levels
    let reachable ← require items[2]? >>= readNames
    if items.length ≤ 3 then .ok { program, symbols, reachable } else .error .malformed
  | _ => .error .malformed

end Document

open Document

def Ty.ofJson? (value : Json) : Option Ty := readTy? value.height value

def Expr.ofJson? (value : Json) : Option Expr := readExpr? false value.height value

def Stmt.ofJson? (value : Json) : Option Stmt := readStmt? false value.height value

/-- The symbol table a document holds, if it is valid. -/
def SymbolTable.ofJson (value : Json) : Except DecodeError SymbolTable :=
  readTable value.height value

/-- **The checked program a document holds.** -/
def CheckedProgram.ofJson (value : Json) : Except DecodeError CheckedProgram :=
  readChecked false value.height value

end StackBackend
