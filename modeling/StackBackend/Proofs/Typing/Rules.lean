import StackBackend.Proofs.Lowering.Shape.Statement

/-!
# Well-typed trees

Every node of a checked tree carries a type.  A tree is well typed when the types fit together:
literals carry their own type, a variable the type it is bound with, a function name the signature
it is bound with, operands, indices and conditions the types their construct asks for, arguments the
types of the signature they are passed to.  The rules are a test that can be run, one clause per
construct, relative to a `Context` that gives variables one type each and names the functions that
will be there to be called.

* `Context.typed`, `Context.stmtTyped`, `Context.blockTyped` — the rules;
* `Agrees` — what lowering looks names up in says the same as a context, so that a well-typed
  expression is one that leaves a value (`Agrees.producesValue`).

A call of a procedure has no value; it is well typed as a statement only.
-/

namespace StackBackend

/-- The arguments and the result of a function pointer. -/
def Ty.signature? : Ty → Option (List Ty × Ty)
  | fptr args ret => some (args, ret)
  | _ => none

lemma Ty.signature?_eq_some {ty : Ty} {args : List Ty} {ret : Ty} :
    ty.signature? = some (args, ret) ↔ ty = .fptr args ret := by
  cases ty <;> simp [signature?]

lemma Ty.element?_eq_some {ty element : Ty} : ty.element? = some element ↔ ty = .list element := by
  cases ty <;> simp [element?]

lemma Ty.isVoid_iff {ty : Ty} : ty.isVoid = true ↔ ty = .void := by
  cases ty <;> simp [isVoid]

lemma Expr.ident?_eq_some {e : Expr} {name : String} :
    e.ident? = some name ↔ ∃ note, e = .ident note name := by
  cases e <;> simp [ident?]

namespace Typing

open Lowering

/-! ## Contexts -/

/-- What the names of a body stand for. -/
structure Context where
  symbols : SymbolTable
  /-- The type of a variable, one throughout the body. -/
  vars : String → Option Ty
  /-- The signatures of the functions that can be called. -/
  functions : String → Option (List Ty × Ty)
  /-- What the body returns. -/
  ret : Ty

namespace Context

variable (Γ : Context)

/-- The type of a pointer to a function. -/
def pointerTy? (name : String) : Option Ty :=
  (Γ.functions name).map fun signature => .fptr signature.1 signature.2

/-- The type a name must carry. -/
def nameTy? (scope : ScopeId) (name : String) : Option Ty :=
  match Γ.symbols.lookup scope name with
  | some (.fn _) => Γ.pointerTy? name
  | some (.var v) => if Γ.vars name = some v.ty then some v.ty else none
  | none => none

/-- The signature a call goes by. -/
def signature? (scope : ScopeId) (callee : Expr) : Option (List Ty × Ty) :=
  callee.ident?.bind fun name => (Γ.nameTy? scope name).bind Ty.signature?

end Context

/-! ## Expressions -/

/-- The type of an operator's result, if its operands can have those types. -/
def resultTy? (op : BinaryOp) (lhs rhs : Ty) : Option Ty :=
  match op.cond? with
  | none => if lhs = .int ∧ rhs = .int then some .int else none
  | some cond => (comparison? op cond lhs rhs).map fun _ => .bool

lemma resultTy?_eq_some {op : BinaryOp} {lhs rhs ty : Ty} (h : resultTy? op lhs rhs = some ty) :
    (op.cond? = none ∧ lhs = .int ∧ rhs = .int ∧ ty = .int) ∨
      ∃ cond comparison, op.cond? = some cond ∧ comparison? op cond lhs rhs = some comparison ∧
        ty = .bool := by
  rw [resultTy?] at h
  split at h
  · next hcond =>
      split at h
      · next hint => exact .inl ⟨hcond, hint.1, hint.2, by simpa [eq_comm] using h⟩
      · simp at h
  · next cond hcond =>
      obtain ⟨comparison, hcomparison, rfl⟩ := Option.map_eq_some_iff.1 h
      exact .inr ⟨cond, comparison, hcond, hcomparison, rfl⟩

/-- What is compared as raw integers is numbers or truth values. -/
lemma primitive_of_scalar {op : BinaryOp} {cond cond' : Cond} {lhs rhs : Ty}
    (h : comparison? op cond lhs rhs = some (.scalar cond')) :
    lhs.isPrimitive = true ∧ rhs.isPrimitive = true := by
  rw [comparison?] at h
  split at h
  · next hint => exact ⟨hint.1 ▸ rfl, hint.2 ▸ rfl⟩
  · split at h
    · split at h
      · next hbool => exact ⟨hbool.1 ▸ rfl, hbool.2 ▸ rfl⟩
      · split at h
        · simp at h
        · split at h <;> simp at h
    · simp at h

lemma string_of_text {op : BinaryOp} {cond : Cond} {lhs rhs : Ty}
    (h : comparison? op cond lhs rhs = some .text) : lhs = .string ∧ rhs = .string := by
  rw [comparison?] at h
  split at h
  · simp at h
  · split at h
    · split at h
      · simp at h
      · split at h
        · next htext => exact htext
        · split at h <;> simp at h
    · simp at h

lemma reference_of_identity {op : BinaryOp} {cond : Cond} {lhs rhs : Ty}
    (h : comparison? op cond lhs rhs = some .identity) :
    lhs.isReference = true ∧ rhs.isReference = true := by
  rw [comparison?] at h
  split at h
  · simp at h
  · split at h
    · split at h
      · simp at h
      · split at h
        · simp at h
        · split at h
          · next href => exact href
          · simp at h
    · simp at h

/-- Whether an operator can be applied to an operand, with a result of a type. -/
def unaryTyped (op : UnaryOp) (operand : Expr) (ty : Ty) : Bool :=
  match op with
  | .neg => operand.ty = .int && ty = .int
  | .not => operand.ty = .bool && ty = .bool
  | .inc | .dec => operand.ident?.isSome && operand.ty = .int && ty = .int

namespace Context

mutual

/-- **Whether an expression is well typed** and has a value of the type it carries. -/
def typed (Γ : Context) (scope : ScopeId) : Expr → Bool
  | .int note _ => note.ty = .int
  | .bool note _ => note.ty = .bool
  | .str note _ => note.ty = .string
  | .ident note name => Γ.nameTy? scope name = some note.ty
  | .fnPtr note name => Γ.pointerTy? name = some note.ty
  | .list note elements =>
    (note.ty.element?.any fun ty => elements.all (·.ty = ty)) && Γ.allTyped scope elements
  | .call note callee args =>
    Γ.signature? scope callee = some (args.map Expr.ty, note.ty) && !note.ty.isVoid &&
      Γ.allTyped scope args
  | .index note base [index] =>
    base.ty = .list note.ty && index.ty = .int && Γ.typed scope base && Γ.typed scope index
  | .index _ _ _ => false
  | .binary note op lhs rhs =>
    resultTy? op lhs.ty rhs.ty = some note.ty && Γ.typed scope lhs && Γ.typed scope rhs
  | .unary note op operand => unaryTyped op operand note.ty && Γ.typed scope operand
  | .len note operand =>
    (operand.ty = .string || operand.ty.isList) && note.ty = .int && Γ.typed scope operand
  | .chop note operand => operand.ty = .string && note.ty = .string && Γ.typed scope operand

/-- Whether all of some expressions are well typed. -/
def allTyped (Γ : Context) (scope : ScopeId) : List Expr → Bool
  | [] => true
  | e :: rest => Γ.typed scope e && Γ.allTyped scope rest

end

/-- Whether an expression is a well-typed call, with a value or without one. -/
def callTyped (Γ : Context) (scope : ScopeId) : Expr → Bool
  | .call note callee args =>
    Γ.signature? scope callee = some (args.map Expr.ty, note.ty) && Γ.allTyped scope args
  | _ => false

/-! ## Statements -/

/-- Whether an expression is a variable that carries the type it is bound with. -/
def variableTyped (Γ : Context) (scope : ScopeId) (target : Expr) : Bool :=
  target.ident?.any fun name =>
    ((Γ.symbols.lookup scope name).bind Binding.var?).any fun v =>
      v.ty = target.ty && Γ.vars name = some v.ty

/-- Whether an expression is well typed, of a type. -/
def typedAs (Γ : Context) (scope : ScopeId) (e : Expr) (ty : Ty) : Bool :=
  Γ.typed scope e && e.ty = ty

mutual

/-- **Whether a statement is well typed**, inside a loop or not. -/
def stmtTyped (Γ : Context) (inLoop : Bool) (scope : ScopeId) : Stmt → Bool
  | .assign _ target none op value =>
    Γ.variableTyped scope target && Γ.typedAs scope (assignedValue op target value) target.ty
  | .assign _ target (some index) op value =>
    Γ.variableTyped scope target && Γ.typedAs scope index .int &&
      target.ty.element?.any fun element =>
        Γ.typedAs scope (assignedValue op
          (.index { ty := element, span := target.span } target [index]) value) element
  | .branch _ cond thenBody elseBody block =>
    Γ.typedAs scope cond .bool &&
      Γ.blockTyped inLoop (Γ.symbols.enter scope block) thenBody &&
      Γ.blockTyped inLoop (Γ.symbols.enter scope block) elseBody
  | .loop _ body block => Γ.blockTyped true (Γ.symbols.enter scope block) body
  | .exitLoop _ | .nextLoop _ => inLoop
  | .ret _ none => true
  | .ret _ (some value) => Γ.typed scope value && (Γ.ret.isVoid || value.ty = Γ.ret)
  | .put _ value => Γ.typed scope value && !value.ty.isVoid
  | .eval _ e => Γ.typed scope e || Γ.callTyped scope e

/-- **Whether a block is well typed.** -/
def blockTyped (Γ : Context) (inLoop : Bool) (scope : ScopeId) : List Stmt → Bool
  | [] => true
  | stmt :: rest => Γ.stmtTyped inLoop scope stmt && Γ.blockTyped inLoop scope rest

end

end Context

/-! ## What the rules say -/

namespace Context

variable {Γ : Context} {scope : ScopeId}

lemma nameTy?_eq_some {name : String} {ty : Ty} (h : Γ.nameTy? scope name = some ty) :
    (∃ binding signature, Γ.symbols.lookup scope name = some (.fn binding) ∧
        Γ.functions name = some signature ∧ ty = .fptr signature.1 signature.2) ∨
      ∃ v, Γ.symbols.lookup scope name = some (.var v) ∧ v.ty = ty ∧ Γ.vars name = some ty := by
  rw [nameTy?] at h
  split at h
  · next binding hl =>
      obtain ⟨signature, hs, rfl⟩ := Option.map_eq_some_iff.1 h
      exact .inl ⟨binding, signature, hl, hs, rfl⟩
  · next v hl =>
      split at h
      · next hvars =>
          obtain rfl : v.ty = ty := by simpa using h
          exact .inr ⟨v, hl, rfl, hvars⟩
      · simp at h
  · simp at h

lemma signature?_eq_some {callee : Expr} {args : List Ty} {ret : Ty}
    (h : Γ.signature? scope callee = some (args, ret)) :
    ∃ note name, callee = .ident note name ∧ Γ.nameTy? scope name = some (.fptr args ret) := by
  obtain ⟨name, hname, h'⟩ := Option.bind_eq_some_iff.1 h
  obtain ⟨ty, hty, hsignature⟩ := Option.bind_eq_some_iff.1 h'
  obtain ⟨note, rfl⟩ := Expr.ident?_eq_some.1 hname
  obtain rfl := Ty.signature?_eq_some.1 hsignature
  exact ⟨note, name, rfl, hty⟩

lemma exists_of_variableTyped {target : Expr} (h : Γ.variableTyped scope target = true) :
    ∃ note name v, target = .ident note name ∧ Γ.symbols.lookup scope name = some (.var v) ∧
      v.ty = note.ty ∧ Γ.vars name = some note.ty := by
  rw [variableTyped, Option.any_eq_true] at h
  obtain ⟨name, hname, h⟩ := h
  obtain ⟨note, rfl⟩ := Expr.ident?_eq_some.1 hname
  obtain ⟨v, hv, h⟩ := (Option.any_eq_true ..).1 h
  obtain ⟨binding, hl, hv⟩ := Option.bind_eq_some_iff.1 hv
  simp only [Bool.and_eq_true, decide_eq_true_eq] at h
  obtain ⟨hty, hvars⟩ := h
  have hty : v.ty = note.ty := hty
  cases binding with
  | fn _ => simp [Binding.var?] at hv
  | var v' =>
      obtain rfl : v' = v := by simpa [Binding.var?] using hv
      exact ⟨note, name, v', rfl, hl, hty, hty ▸ hvars⟩

lemma typedAs_iff {e : Expr} {ty : Ty} :
    Γ.typedAs scope e ty = true ↔ Γ.typed scope e = true ∧ e.ty = ty := by
  simp [typedAs]

/-- A well-typed call that is no well-typed expression is a call of a procedure. -/
lemma exists_of_procedure {e : Expr} (ht : Γ.callTyped scope e = true)
    (hvoid : ¬ Γ.typed scope e = true) : ∃ note callee args, e = .call note callee args ∧
      Γ.signature? scope callee = some (args.map Expr.ty, note.ty) ∧ note.ty.isVoid = true ∧
      Γ.allTyped scope args = true := by
  cases e with
  | call note callee args =>
      simp only [callTyped, Bool.and_eq_true, decide_eq_true_eq] at ht
      refine ⟨note, callee, args, rfl, ht.1, ?_, ht.2⟩
      simpa [typed, ht.1, ht.2] using hvoid
  | _ => simp [callTyped] at ht

lemma exists_of_listTyped {note : Note} {elements : List Expr}
    (h : Γ.typed scope (.list note elements) = true) :
    ∃ ty, note.ty = .list ty ∧ elements.map Expr.ty = List.replicate elements.length ty ∧
      Γ.allTyped scope elements = true := by
  rw [typed, Bool.and_eq_true, Option.any_eq_true] at h
  obtain ⟨⟨ty, hty, hall⟩, helements⟩ := h
  refine ⟨ty, Ty.element?_eq_some.1 hty, ?_, helements⟩
  rw [List.eq_replicate_iff]
  simpa using hall

/-- What is counted up or down is a variable that holds a number. -/
lemma vars_of_countTyped {note note' : Note} {op : UnaryOp} {name : String}
    (hop : op = .inc ∨ op = .dec)
    (h : Γ.typed scope (.unary note op (.ident note' name)) = true) :
    note.ty = .int ∧ Γ.vars name = some .int := by
  have rule : (note'.ty = .int ∧ note.ty = .int) ∧ Γ.nameTy? scope name = some note'.ty := by
    rcases hop with rfl | rfl <;>
      simp only [typed, unaryTyped, Bool.and_eq_true, decide_eq_true_eq] at h <;>
      exact ⟨⟨h.1.1.2, h.1.2⟩, h.2⟩
  obtain ⟨⟨hint, hty⟩, hname⟩ := rule
  rcases nameTy?_eq_some hname with ⟨_, signature, -, -, hfn⟩ | ⟨v, -, -, hvars⟩
  · simp [hint] at hfn
  · exact ⟨hty, hint ▸ hvars⟩

/-- Arithmetic gives numbers. -/
lemma ty_of_arith {note : Note} {op : BinaryOp} {lhs rhs : Expr} (hcond : op.cond? = none)
    (h : Γ.typed scope (.binary note op lhs rhs) = true) : note.ty = .int := by
  simp only [typed, Bool.and_eq_true, decide_eq_true_eq] at h
  rcases resultTy?_eq_some h.1.1 with ⟨-, -, -, hty⟩ | ⟨_, _, hcond', -, -⟩
  · exact hty
  · simp [hcond] at hcond'

/-- A comparison gives a truth value. -/
lemma ty_of_comparison {note : Note} {op : BinaryOp} {lhs rhs : Expr} {cond : Cond}
    (hcond : op.cond? = some cond) (h : Γ.typed scope (.binary note op lhs rhs) = true) :
    note.ty = .bool := by
  simp only [typed, Bool.and_eq_true, decide_eq_true_eq] at h
  rcases resultTy?_eq_some h.1.1 with ⟨hcond', -, -, -⟩ | ⟨_, _, -, -, hty⟩
  · simp [hcond] at hcond'
  · exact hty

/-- The operand of a well-typed expression is well typed. -/
lemma typed_operand {t u : Supply} {e operand : Expr} {last : List Instruction}
    (h : UnaryCode t e operand last u) (ht : Γ.typed scope e = true) :
    Γ.typed scope operand = true := by
  cases h <;> simp only [typed, Bool.and_eq_true] at ht <;> exact ht.2

/-- Both operands of a well-typed expression are well typed. -/
lemma typed_operands {t u : Supply} {e lhs rhs : Expr} {middle last : List Instruction}
    (h : BinaryCode t e lhs rhs middle last u) (ht : Γ.typed scope e = true) :
    Γ.typed scope lhs = true ∧ Γ.typed scope rhs = true := by
  cases h <;> simp only [typed, Bool.and_eq_true] at ht <;> exact ⟨ht.1.2, ht.2⟩

end Context

/-! ## Contexts and lowering -/

/-- What lowering looks names up in says the same as the context. -/
structure Agrees (env : Env) (Γ : Context) : Prop where
  symbols : env.symbols = Γ.symbols
  returns : ∀ {name ty signature}, env.returns.find? name = some ty →
    Γ.functions name = some signature → ty = signature.2

/-- The names of a block that calls no functions: its variables. -/
def Context.ofVars (symbols : SymbolTable) (vars : String → Option Ty) (ret : Ty) : Context :=
  { symbols, vars, functions := fun _ => none, ret }

/-- Without functions there is nothing to disagree on. -/
lemma agrees_ofVars (env : Env) (vars : String → Option Ty) (ret : Ty) :
    Agrees env (.ofVars env.symbols vars ret) where
  symbols := rfl
  returns _ h := by simp [Context.ofVars] at h

section

variable {env : Env} {Γ : Context} {scope : ScopeId}

/-- A call carries the type that lowering takes it to have. -/
lemma Agrees.callType_eq (hΓ : Agrees env Γ) {note : Note} {name : String} {args : List Ty}
    {ret : Ty} (h : Γ.signature? scope (.ident note name) = some (args, ret)) :
    callType env scope name ret = ret := by
  obtain ⟨note', name', hname, h⟩ := Context.signature?_eq_some h
  obtain ⟨rfl, rfl⟩ := by simpa using hname
  rw [callType, hΓ.symbols]
  rcases Context.nameTy?_eq_some h with ⟨binding, signature, hl, hs, hty⟩ | ⟨v, hl, -, -⟩
  · obtain ⟨rfl, rfl⟩ := by simpa using hty
    rw [hl]
    cases hr : env.returns.find? name with
    | none => rfl
    | some ty => exact hΓ.returns hr hs
  · rw [hl]

/-- A well-typed expression leaves a value. -/
lemma Agrees.producesValue (hΓ : Agrees env Γ) {e : Expr} (h : Γ.typed scope e = true) :
    producesValue env scope e = true := by
  cases e with
  | call note callee args =>
      simp only [Context.typed, Bool.and_eq_true, decide_eq_true_eq] at h
      obtain ⟨note', name, rfl, -⟩ := Context.signature?_eq_some h.1.1
      simp only [Lowering.producesValue, Expr.ident?, hΓ.callType_eq h.1.1]
      exact h.1.2
  | _ => rfl

end

end Typing

end StackBackend
