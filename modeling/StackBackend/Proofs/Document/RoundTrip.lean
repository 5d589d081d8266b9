import StackBackend.Document.Decode
import StackBackend.Document.Encode
import Mathlib.Tactic.Lemma

/-!
# Reading gives back what was written

A document that was written from a checked program is read as that program again, or refused for
the reason the program's own symbol table is not valid.

**Parts.**  `readAll?_map` and `readOption?_ofOption` lift a round trip of items to lists and to
values that may be absent; the numbers of a document lie in the ranges that the readers allow.

**Recursive types.**  Types, expressions and statements are read back under every bound that is not
below the height of the document (`readTy?_toJson`, `readExpr?_toJson`, `readStmt?_toJson`): a
document nests at least one level for every constructor, so the induction is on the tree and the
bound follows.

**Tables.**  Bindings stand under the name they are looked up with, which need not be their own; the
entries of a map are in order, so collecting them gives the map back.
-/

namespace StackBackend

namespace Document

/-! ## Parts of documents -/

section Parts

variable {α : Type} {toJson : α → Json} {read : Json → Option α}

lemma readAll?_map {as : List α} (h : ∀ a ∈ as, read (toJson a) = some a) :
    readAll? read (as.map toJson) = some as := by
  induction as with
  | nil => rfl
  | cons a as ih =>
      have head : read (toJson a) = some a := h a List.mem_cons_self
      have tail := ih fun b hb => h b (List.mem_cons_of_mem a hb)
      simp [readAll?, head, tail]

/-- `null` stands for absence, so no value that is there may be written as `null`. -/
lemma readOption?_ofOption {a? : Option α} (hnull : ∀ a, toJson a ≠ .null)
    (h : ∀ a ∈ a?, read (toJson a) = some a) :
    readOption? read (.ofOption toJson a?) = some a? := by
  cases a? with
  | none => rfl
  | some a =>
      have read_a : read (toJson a) = some a := h a rfl
      rw [Json.ofOption, readOption?.eq_2 _ _ (hnull a), read_a]
      rfl

lemma height_le_of_mem {item : Json} {items : List Json} (h : item ∈ items) :
    item.height ≤ Json.heights items := by
  induction h with
  | head => exact Nat.le_max_left ..
  | tail _ _ ih => exact Nat.le_trans ih (Nat.le_max_right ..)

end Parts

@[simp] lemma readOr?_some {α : Type} (default : α) (read : Json → Option α) (value : Json) :
    readOr? default read (some value) = read value := rfl

@[simp] lemma payload?_obj (fromText : Bool) (names : List String)
    (members : List (String × Json)) :
    payload? fromText names (.obj members) = some (names.map fun name => members.lookup name) := by
  cases fromText <;> rfl

@[simp] lemma readInt32?_toInt (n : Int32) : readInt32? (.int n.toInt) = some n := by
  rw [readInt32?, if_pos ⟨n.minValue_le_toInt, n.toInt_le⟩, Int32.ofInt_toInt]

@[simp] lemma readUInt32?_toNat (n : UInt32) : readUInt32? (.int n.toNat) = some n := by
  have range : (n.toNat : Int) < UInt32.size := Int.ofNat_lt.2 n.toNat_lt
  rw [readUInt32?, if_pos ⟨Int.natCast_nonneg _, range⟩, Int.toNat_natCast, UInt32.ofNat_toNat]

@[simp] lemma readUInt64?_toNat (n : UInt64) : readUInt64? (.int n.toNat) = some n := by
  have range : (n.toNat : Int) < UInt64.size := Int.ofNat_lt.2 n.toNat_lt
  rw [readUInt64?, if_pos ⟨Int.natCast_nonneg _, range⟩, Int.toNat_natCast, UInt64.ofNat_toNat]

@[simp] lemma readBinaryOp?_name (op : BinaryOp) :
    readNamed? BinaryOp.name BinaryOp.all (.str op.name) = some op := by
  cases op <;> decide

@[simp] lemma readUnaryOp?_name (op : UnaryOp) :
    readNamed? UnaryOp.name UnaryOp.all (.str op.name) = some op := by
  cases op <;> decide

@[simp] lemma readAssignOp?_name (op : AssignOp) :
    readNamed? AssignOp.name AssignOp.all (.str op.name) = some op := by
  cases op <;> decide

/-! ## Types and places -/

mutual

theorem readTy?_toJson (levels : Nat) (ty : Ty) (h : ty.toJson.height ≤ levels) :
    readTy? levels ty.toJson = some ty := by
  match ty with
  | .int | .bool | .string | .void => rw [readTy?.eq_def]; rfl
  | .list element =>
      simp only [Ty.toJson, Json.height, Json.memberHeights] at h
      obtain ⟨levels, rfl⟩ : ∃ k, levels = k + 1 := ⟨levels - 1, by omega⟩
      have read_element : readTy? levels element.toJson = some element :=
        readTy?_toJson levels element (by omega)
      rw [Ty.toJson, readTy?.eq_def]
      simp [Json.variant?, read_element]
  | .fptr args ret =>
      simp only [Ty.toJson, Json.height, Json.memberHeights] at h
      obtain ⟨levels, rfl⟩ : ∃ k, levels = k + 1 := ⟨levels - 1, by omega⟩
      have read_args : readAll? (readTy? levels) (Ty.toJsons args) = some args :=
        readTys?_toJsons levels args (by omega)
      have read_ret : readTy? levels ret.toJson = some ret := readTy?_toJson levels ret (by omega)
      rw [Ty.toJson, readTy?.eq_def]
      simp [Json.variant?, Json.record?, NameMap.lookup_entry, readList?, read_args, read_ret]

theorem readTys?_toJsons (levels : Nat) (tys : List Ty)
    (h : Json.heights (Ty.toJsons tys) ≤ levels) :
    readAll? (readTy? levels) (Ty.toJsons tys) = some tys := by
  match tys with
  | [] => rfl
  | ty :: rest =>
      simp only [Ty.toJsons, Json.heights] at h
      have head : readTy? levels ty.toJson = some ty := readTy?_toJson levels ty (by omega)
      have tail := readTys?_toJsons levels rest (by omega)
      simp [Ty.toJsons, readAll?, head, tail]

end

@[simp] lemma readPos?_toJson (p : Pos) : readPos? p.toJson = some p := by
  simp [readPos?, Pos.toJson, Json.record?, NameMap.lookup_entry]

@[simp] lemma readSpan?_toJson (s : Span) : readSpan? s.toJson = some s := by
  simp [readSpan?, Span.toJson, Json.record?, NameMap.lookup_entry]

@[simp] lemma readScopeId?_toJson (id : ScopeId) : readScopeId? id.toJson = some id := by
  rw [readScopeId?, ScopeId.toJson, ScopeId.toNat, readUInt32?_toNat]
  rfl

@[simp] lemma readScope??_toJson (id? : Option ScopeId) :
    readOption? readScopeId? (.ofOption ScopeId.toJson id?) = some id? :=
  readOption?_ofOption (by simp [ScopeId.toJson]) fun id _ => readScopeId?_toJson id

/-! ## Trees -/

/-- A node is read back if its kind and its type are. -/
lemma readExpr?_nodeJson {fromText : Bool} {levels : Nat} {note : Note} {kind : Json} {e : Expr}
    (hty : note.ty.toJson.height ≤ levels)
    (hkind : readExprKind? fromText (readExpr? fromText levels) note kind = some e) :
    readExpr? fromText (levels + 1) (Expr.nodeJson note kind) = some e := by
  -- The document of the span stays abstract: reading it is checked once, in `readSpan?_toJson`.
  obtain ⟨place, read_place, fields⟩ : ∃ place, readSpan? place = some note.span ∧
      (Expr.nodeJson note kind).record? ["kind", "ty", "span"]
        = some [some kind, some note.ty.toJson, some place] :=
    ⟨note.span.toJson, readSpan?_toJson _,
      by simp [Expr.nodeJson, Json.record?, NameMap.lookup_entry]⟩
  simp [readExpr?, fields, readTy?_toJson levels _ hty, read_place, hkind]

mutual

theorem readExpr?_toJson (fromText : Bool) (levels : Nat) (e : Expr)
    (h : e.toJson.height ≤ levels) : readExpr? fromText levels e.toJson = some e := by
  obtain ⟨levels, rfl⟩ : ∃ k, levels = k + 1 := by
    refine ⟨levels - 1, ?_⟩
    cases e <;> simp only [Expr.toJson, Expr.nodeJson, Json.height] at h <;> omega
  match e with
  | .int note _ | .bool note _ | .str note _ | .ident note _ | .fnPtr note _ =>
      simp only [Expr.toJson, Expr.nodeJson, Json.height, Json.memberHeights] at h
      rw [Expr.toJson]
      refine readExpr?_nodeJson (by omega) ?_
      simp [readExprKind?, Json.variant?, readBool?, readString?]
  | .list note elements =>
      simp only [Expr.toJson, Expr.nodeJson, Json.height, Json.memberHeights] at h
      have read_elements := readExprs?_toJsons fromText levels elements (by omega)
      rw [Expr.toJson]
      refine readExpr?_nodeJson (by omega) ?_
      simp [readExprKind?, Json.variant?, readList?, read_elements]
  | .call note base args | .index note base args =>
      simp only [Expr.toJson, Expr.nodeJson, Json.height, Json.memberHeights] at h
      have read_base := readExpr?_toJson fromText levels base (by omega)
      have read_args := readExprs?_toJsons fromText levels args (by omega)
      rw [Expr.toJson]
      refine readExpr?_nodeJson (by omega) ?_
      simp [readExprKind?, readAccess?, Json.variant?, NameMap.lookup_entry, readList?, read_base,
        read_args]
  | .binary note op lhs rhs =>
      simp only [Expr.toJson, Expr.nodeJson, Json.height, Json.memberHeights] at h
      have read_lhs := readExpr?_toJson fromText levels lhs (by omega)
      have read_rhs := readExpr?_toJson fromText levels rhs (by omega)
      rw [Expr.toJson]
      refine readExpr?_nodeJson (by omega) ?_
      simp [readExprKind?, Json.variant?, NameMap.lookup_entry, read_lhs, read_rhs]
  | .unary note _ operand | .len note operand | .chop note operand =>
      simp only [Expr.toJson, Expr.nodeJson, Json.height, Json.memberHeights] at h
      have read_operand := readExpr?_toJson fromText levels operand (by omega)
      rw [Expr.toJson]
      refine readExpr?_nodeJson (by omega) ?_
      simp [readExprKind?, Json.variant?, NameMap.lookup_entry, read_operand]

theorem readExprs?_toJsons (fromText : Bool) (levels : Nat) (es : List Expr)
    (h : Json.heights (Expr.toJsons es) ≤ levels) :
    readAll? (readExpr? fromText levels) (Expr.toJsons es) = some es := by
  match es with
  | [] => rfl
  | e :: rest =>
      simp only [Expr.toJsons, Json.heights] at h
      have head := readExpr?_toJson fromText levels e (by omega)
      have tail := readExprs?_toJsons fromText levels rest (by omega)
      simp [Expr.toJsons, readAll?, head, tail]

end

lemma toJson_ne_null (e : Expr) : e.toJson ≠ .null := by
  cases e <;> simp [Expr.toJson, Expr.nodeJson]

lemma readExpr??_toJson (fromText : Bool) (levels : Nat) (e? : Option Expr)
    (h : (Json.ofOption Expr.toJson e?).height ≤ levels) :
    readOption? (readExpr? fromText levels) (.ofOption Expr.toJson e?) = some e? := by
  refine readOption?_ofOption toJson_ne_null fun e he => readExpr?_toJson fromText levels e ?_
  obtain rfl : e? = some e := he
  exact h

/-- A statement is read back if its kind is. -/
lemma readStmt?_stmtJson {fromText : Bool} {levels : Nat} {span : Span} {kind : Json} {stmt : Stmt}
    (hkind : readStmtKind? fromText (readExpr? fromText levels) (readStmt? fromText levels) span
      kind = some stmt) :
    readStmt? fromText (levels + 1) (Stmt.stmtJson span kind) = some stmt := by
  obtain ⟨place, read_place, fields⟩ : ∃ place, readSpan? place = some span ∧
      (Stmt.stmtJson span kind).record? ["kind", "span"] = some [some kind, some place] :=
    ⟨span.toJson, readSpan?_toJson _, by simp [Stmt.stmtJson, Json.record?, NameMap.lookup_entry]⟩
  simp [readStmt?, fields, read_place, hkind]

mutual

theorem readStmt?_toJson (fromText : Bool) (levels : Nat) (stmt : Stmt)
    (h : stmt.toJson.height ≤ levels) : readStmt? fromText levels stmt.toJson = some stmt := by
  obtain ⟨levels, rfl⟩ : ∃ k, levels = k + 1 := by
    refine ⟨levels - 1, ?_⟩
    cases stmt <;> simp only [Stmt.toJson, Stmt.stmtJson, Json.height] at h <;> omega
  match stmt with
  | .assign span target index op value =>
      simp only [Stmt.toJson, Stmt.stmtJson, Json.height, Json.memberHeights] at h
      have read_target := readExpr?_toJson fromText levels target (by omega)
      have read_index := readExpr??_toJson fromText levels index (by omega)
      have read_value := readExpr?_toJson fromText levels value (by omega)
      rw [Stmt.toJson]
      refine readStmt?_stmtJson ?_
      simp [readStmtKind?, readAssign?, Json.variant?, Json.record?, NameMap.lookup_entry,
        read_target, read_index, read_value]
  | .branch span cond thenBody elseBody scope =>
      simp only [Stmt.toJson, Stmt.stmtJson, Json.height, Json.memberHeights] at h
      have read_cond := readExpr?_toJson fromText levels cond (by omega)
      have read_then := readStmts?_toJsons fromText levels thenBody (by omega)
      have read_else := readStmts?_toJsons fromText levels elseBody (by omega)
      rw [Stmt.toJson]
      refine readStmt?_stmtJson ?_
      simp [readStmtKind?, Json.variant?, NameMap.lookup_entry, readList?, read_cond,
        read_then, read_else]
  | .loop span body scope =>
      simp only [Stmt.toJson, Stmt.stmtJson, Json.height, Json.memberHeights] at h
      have read_body := readStmts?_toJsons fromText levels body (by omega)
      rw [Stmt.toJson]
      refine readStmt?_stmtJson ?_
      simp [readStmtKind?, Json.variant?, NameMap.lookup_entry, readList?, read_body]
  | .exitLoop span | .nextLoop span =>
      rw [Stmt.toJson]
      refine readStmt?_stmtJson ?_
      simp [readStmtKind?, Json.variant?, Json.isUnit]
  | .ret span value =>
      simp only [Stmt.toJson, Stmt.stmtJson, Json.height, Json.memberHeights] at h
      have read_value := readExpr??_toJson fromText levels value (by omega)
      rw [Stmt.toJson]
      refine readStmt?_stmtJson ?_
      simp [readStmtKind?, Json.variant?, read_value]
  | .put span value | .eval span value =>
      simp only [Stmt.toJson, Stmt.stmtJson, Json.height, Json.memberHeights] at h
      have read_value := readExpr?_toJson fromText levels value (by omega)
      rw [Stmt.toJson]
      refine readStmt?_stmtJson ?_
      simp [readStmtKind?, Json.variant?, read_value]

theorem readStmts?_toJsons (fromText : Bool) (levels : Nat) (block : List Stmt)
    (h : Json.heights (Stmt.toJsons block) ≤ levels) :
    readAll? (readStmt? fromText levels) (Stmt.toJsons block) = some block := by
  match block with
  | [] => rfl
  | stmt :: rest =>
      simp only [Stmt.toJsons, Json.heights] at h
      have head := readStmt?_toJson fromText levels stmt (by omega)
      have tail := readStmts?_toJsons fromText levels rest (by omega)
      simp [Stmt.toJsons, readAll?, head, tail]

end

section Program

variable (fromText : Bool) (levels : Nat)

/-- A list is read back if each item is, under the bound the list as a whole keeps. -/
lemma readList?_map {levels : Nat} {α : Type} {toJson : α → Json} {read : Json → Option α}
    {as : List α} (hlevels : (Json.arr (as.map toJson)).height ≤ levels)
    (h : ∀ a, (toJson a).height ≤ levels → read (toJson a) = some a) :
    readList? read (.arr (as.map toJson)) = some as := by
  refine readAll?_map fun a ha => h a ?_
  have item : (toJson a).height ≤ Json.heights (as.map toJson) :=
    height_le_of_mem (List.mem_map_of_mem ha)
  rw [Json.height] at hlevels
  omega

lemma readParam?_toJson (p : Param) (h : p.toJson.height ≤ levels) :
    readParam? levels p.toJson = some p := by
  simp only [Param.toJson, Json.height, Json.memberHeights] at h
  have read_ty : readTy? levels p.ty.toJson = some p.ty := readTy?_toJson levels p.ty (by omega)
  simp [readParam?, Param.toJson, Json.record?, NameMap.lookup_entry, readString?, read_ty]

lemma readFunction?_toJson (d : FunctionDecl) (h : d.toJson.height ≤ levels) :
    readFunction? fromText levels d.toJson = some d := by
  simp only [FunctionDecl.toJson, Json.height, Json.memberHeights] at h
  have read_params : readList? (readParam? levels) (.arr (d.params.map Param.toJson))
      = some d.params :=
    readList?_map (by rw [Json.height]; omega) (readParam?_toJson levels)
  have read_body := readStmts?_toJsons fromText levels d.body (by omega)
  obtain ⟨place, read_place, fields⟩ : ∃ place, readSpan? place = some d.span ∧
      d.toJson.record? ["name", "args", "body", "span"]
        = some [some (.str d.name), some (.arr (d.params.map Param.toJson)),
            some (.arr (Stmt.toJsons d.body)), some place] :=
    ⟨d.span.toJson, readSpan?_toJson _,
      by simp [FunctionDecl.toJson, Json.record?, NameMap.lookup_entry]⟩
  rw [readList?] at read_params
  simp [readFunction?, fields, readString?, readList?, read_params, read_body, read_place]

lemma readMain?_toJson (m : MainUnit) (h : m.toJson.height ≤ levels) :
    readMain? fromText levels m.toJson = some m := by
  simp only [MainUnit.toJson, Json.height, Json.memberHeights] at h
  have read_body := readStmts?_toJsons fromText levels m.body (by omega)
  obtain ⟨place, read_place, fields⟩ : ∃ place, readSpan? place = some m.span ∧
      m.toJson.record? ["body", "scope", "span"]
        = some [some (.arr (Stmt.toJsons m.body)), some m.scope.toJson, some place] :=
    ⟨m.span.toJson, readSpan?_toJson _,
      by simp [MainUnit.toJson, Json.record?, NameMap.lookup_entry]⟩
  simp [readMain?, fields, readList?, read_body, read_place]

lemma readProgram?_toJson (p : Program) (h : p.toJson.height ≤ levels) :
    readProgram? fromText levels p.toJson = some p := by
  simp only [Program.toJson, Json.height, Json.memberHeights] at h
  have read_main : readMain? fromText levels p.main.toJson = some p.main :=
    readMain?_toJson fromText levels p.main (by omega)
  have read_functions : readList? (readFunction? fromText levels)
      (.arr (p.functions.map FunctionDecl.toJson)) = some p.functions :=
    readList?_map (by rw [Json.height]; omega) (readFunction?_toJson fromText levels)
  simp [readProgram?, Program.toJson, Json.record?, NameMap.lookup_entry, read_main,
    read_functions]

/-! ## Symbol tables -/

lemma readVariable?_toJson (b : VariableBinding) (h : b.toJson.height ≤ levels) :
    readVariable? levels b.toJson = some b := by
  simp only [VariableBinding.toJson, Json.height, Json.memberHeights] at h
  have read_ty : readTy? levels b.ty.toJson = some b.ty := readTy?_toJson levels b.ty (by omega)
  simp [readVariable?, VariableBinding.toJson, Json.record?, NameMap.lookup_entry, readString?,
    read_ty]

lemma readFunctionBinding?_toJson (b : FunctionBinding) (h : b.toJson.height ≤ levels) :
    readFunctionBinding? levels b.toJson = some b := by
  simp only [FunctionBinding.toJson, Json.height, Json.memberHeights] at h
  have read_args := readTys?_toJsons levels b.argTypes (by omega)
  have read_ret : readTy? levels b.returnType.toJson = some b.returnType :=
    readTy?_toJson levels b.returnType (by omega)
  simp [readFunctionBinding?, FunctionBinding.toJson, Json.record?, NameMap.lookup_entry,
    readString?, readList?, read_args, read_ret]

lemma readBinding?_toJson (b : Binding) (h : b.toJson.height ≤ levels) :
    readBinding? levels b.toJson = some b := by
  cases b with
  | var b =>
      simp only [Binding.toJson, Json.height, Json.memberHeights] at h
      simp [readBinding?, Binding.toJson, Json.variant?,
        readVariable?_toJson levels b (by omega)]
  | fn b =>
      simp only [Binding.toJson, Json.height, Json.memberHeights] at h
      simp [readBinding?, Binding.toJson, Json.variant?,
        readFunctionBinding?_toJson levels b (by omega)]

lemma readEntries?_map (entries : List (String × Binding))
    (h : Json.memberHeights (entries.map fun e => (e.1, e.2.toJson)) ≤ levels) :
    readEntries? levels (entries.map fun e => (e.1, e.2.toJson)) = some entries := by
  induction entries with
  | nil => rfl
  | cons entry rest ih =>
      simp only [List.map_cons, Json.memberHeights] at h
      have head : readBinding? levels entry.2.toJson = some entry.2 :=
        readBinding?_toJson levels entry.2 (by omega)
      have tail := ih (by omega)
      simp [readEntries?, head, tail]

lemma readScope?_toJson (s : Scope) (h : s.toJson.height ≤ levels) :
    readScope? levels s.toJson = some s := by
  simp only [Scope.toJson, Json.height, Json.memberHeights] at h
  have read_entries := readEntries?_map levels s.bindings.entries (by omega)
  simp [readScope?, Scope.toJson, Json.record?, NameMap.lookup_entry, readBindings?,
    read_entries, NameMap.ofList_entries]

lemma readScopes?_toJson (t : SymbolTable) (h : t.toJson.height ≤ levels) :
    readScopes? levels t.toJson = some t := by
  simp only [SymbolTable.toJson, Json.height, Json.memberHeights] at h
  have read_scopes : readList? (readScope? levels) (.arr (t.scopes.map Scope.toJson))
      = some t.scopes :=
    readList?_map (by rw [Json.height]; omega) (readScope?_toJson levels)
  simp [readScopes?, SymbolTable.toJson, Json.record?, NameMap.lookup_entry, read_scopes]

/-- A table is read back if it is valid, and refused for what is wrong with it if not. -/
lemma readTable_toJson (t : SymbolTable) (h : t.toJson.height ≤ levels) :
    readTable levels t.toJson = match t.validate with
      | .ok _ => .ok t
      | .error e => .error (.scope e) := by
  rw [readTable, readScopes?_toJson levels t h]
  simp only
  cases t.validate <;> rfl

lemma readNames?_map (names : List String) :
    readList? readString? (.arr (names.map .str)) = some names :=
  readAll?_map fun _ _ => rfl

end Program

end Document

open Document

/-- **Reading a written program** gives the program back if its symbol table is valid, and is
refused for the reason the table is not valid otherwise. -/
theorem CheckedProgram.ofJson_toJson (p : CheckedProgram) :
    CheckedProgram.ofJson p.toJson = match p.symbols.validate with
      | .ok _ => .ok p
      | .error e => .error (.scope e) := by
  obtain ⟨levels, hlevels⟩ : ∃ levels, levels = p.toJson.height := ⟨_, rfl⟩
  rw [CheckedProgram.ofJson, ← hlevels]
  simp only [CheckedProgram.toJson, Json.height, Json.memberHeights] at hlevels
  have read_program : readProgram? false levels p.program.toJson = some p.program :=
    readProgram?_toJson false levels p.program (by omega)
  have read_table := readTable_toJson levels p.symbols (by omega)
  -- The tree and the names are always read, so only the table can be what is refused.
  rw [CheckedProgram.toJson, readChecked]
  simp only [NameMap.lookup_entry, String.reduceEq, if_true, if_false, ifPresent, read_program,
    readNames?_map, read_table]
  cases p.symbols.validate <;> rfl

end StackBackend
