import StackBackend.Proofs.Lowering.Actions

/-!
# The shape of lowered expressions

Lowering is an action on a state; what it emits is easier to reason about as a relation.
`ExprCode env scope depth t e code u` says that an expression `e`, lowered inside `depth` calls with
the supply `t` at hand, becomes `code` and leaves the supply `u`.  The relation follows the syntax:
an expression is a leaf, has one or two operands, is a list, or is a call, and what an operator adds
to the code of its operands is said apart, in `UnaryCode` and `BinaryCode`, which are not recursive.

* `lowerExpr_does_iff` — lowering an expression succeeds exactly in the ways `ExprCode` lists.

Everything proved about emitted code is proved by induction on this relation, so a change to the
lowering of one construct shows up in its constructor and in the lemmas about that constructor.
-/

namespace StackBackend.Lowering

open Emit

/-! ## Fixed sequences -/

/-- Push a function pointer. -/
def closureCode (name : String) : List Instruction :=
  [.new ClassName.closure, .dup, .load 0, .ldc (.str name), .construct .closureInit]

/-- Put a new array into a slot. -/
def arrayCode (slot : Nat) : List Instruction :=
  [.new ClassName.array, .dup, .construct .arrayInit, .store slot]

/-- Push a list around the array in a slot. -/
def wrapCode (slot : Nat) : List Instruction :=
  [.new ClassName.list, .dup, .load slot, .construct .listInit]

/-- Turn a conditional jump into a boxed truth value, by the labels `n` and `n + 1`. -/
def truthCode (branch : Label → Instruction) (n : Nat) : List Instruction :=
  [branch ⟨n⟩, .ldc (.int 0), .callStatic .booleanValueOf, .jump ⟨n + 1⟩, .label ⟨n⟩, .ldc (.int 1),
    .callStatic .booleanValueOf, .label ⟨n + 1⟩]

/-- Drop the last character of the text on the stack. -/
def chopCode : List Instruction :=
  [.dup, .callVirtual .stringLength, .ldc (.int 1), .arith .sub, .zero, .swap,
    .callVirtual .stringSubstring]

/-- What is made of the result of a call. -/
def resultCode (ret : Ty) : List Instruction :=
  if ret.isVoid then [.pop] else downcast ret

/-- What is made of an element taken out of a list. -/
def elementCode (element : Ty) : List Instruction :=
  if element.isList then [] else downcast element

/-- What comes before an element that goes into an array. -/
def openCopy (ty : Ty) : List Instruction :=
  if ty.isList then [.new ClassName.list, .dup] else []

/-- What comes after an element that goes into an array. -/
def closeCopy (ty : Ty) : List Instruction :=
  if ty.isList then [.construct .listCopy] else []

/-- The type a variable is loaded as; none for the name of a function. -/
def variableTy? (env : Env) (scope : ScopeId) (name : String) (annotated : Ty) : Option Ty :=
  match env.symbols.lookup scope name with
  | some (.fn _) => none
  | some (.var v) => some v.ty
  | none => some annotated

/-! ## Expressions -/

/-- The code of an expression without parts. -/
inductive LeafCode (env : Env) (scope : ScopeId) :
    Supply → Expr → List Instruction → Supply → Prop
  | int {t : Supply} {note : Note} {value : Int32} :
      LeafCode env scope t (.int note value) [.ldc (.int value), .callStatic .integerValueOf] t
  | bool {t : Supply} {note : Note} {value : Bool} :
      LeafCode env scope t (.bool note value)
        [.ldc (.int (if value then 1 else 0)), .callStatic .booleanValueOf] t
  | str {t : Supply} {note : Note} {value : String} :
      LeafCode env scope t (.str note value) [.ldc (.str value)] t
  | fn {t : Supply} {note : Note} {name : String} {binding : FunctionBinding} :
      env.symbols.lookup scope name = some (.fn binding) →
      LeafCode env scope t (.ident note name) (closureCode name) t
  | var {t : Supply} {note : Note} {name : String} {ty : Ty} :
      t.HasRoom → variableTy? env scope name note.ty = some ty →
      LeafCode env scope t (.ident note name) (.load (t.slotOf (.var name)) :: downcast ty)
        (t.withSlot (.var name))
  | pointer {t : Supply} {note : Note} {name : String} :
      LeafCode env scope t (.fnPtr note name) (closureCode name) t

/-- The code that makes the value of an expression out of the value of its operand. -/
inductive UnaryCode : Supply → (e operand : Expr) → List Instruction → Supply → Prop
  | neg {t : Supply} {note : Note} {operand : Expr} : operand.ty = .int →
      UnaryCode t (.unary note .neg operand) operand
        [.callVirtual .intValue, .neg, .callStatic .integerValueOf] t
  | not {t : Supply} {note : Note} {operand : Expr} : operand.ty = .bool →
      UnaryCode t (.unary note .not operand) operand
        [.callVirtual .booleanValue, .ldc (.int 1), .arith .xor, .callStatic .booleanValueOf] t
  | count {t : Supply} {note : Note} {operand : Expr} {op : UnaryOp} {name : String} :
      t.HasRoom → op = .inc ∨ op = .dec → operand.ident? = some name → operand.ty = .int →
      UnaryCode t (.unary note op operand) operand
        [.callVirtual .intValue, .ldc (.int 1), .arith (if op = .inc then .add else .sub),
          .callStatic .integerValueOf, .dup, .store (t.slotOf (.var name))]
        (t.withSlot (.var name))
  | lenText {t : Supply} {note : Note} {operand : Expr} : operand.ty = .string →
      UnaryCode t (.len note operand) operand
        [.callVirtual .stringLength, .callStatic .integerValueOf] t
  | lenList {t : Supply} {note : Note} {operand : Expr} {element : Ty} :
      operand.ty = .list element →
      UnaryCode t (.len note operand) operand
        [.callVirtual .listSize, .callStatic .integerValueOf] t
  | chop {t : Supply} {note : Note} {operand : Expr} : operand.ty = .string →
      UnaryCode t (.chop note operand) operand chopCode t

/-- The code that makes the value of an expression out of the values of its two operands:
`middle` follows the first operand, `last` the second. -/
inductive BinaryCode :
    Supply → (e lhs rhs : Expr) → (middle last : List Instruction) → Supply → Prop
  | arith {t : Supply} {note : Note} {op : BinaryOp} {lhs rhs : Expr} : op.cond? = none →
      lhs.ty = .int → rhs.ty = .int →
      BinaryCode t (.binary note op lhs rhs) lhs rhs [.callVirtual .intValue]
        [.callVirtual .intValue, .arith op.intOp, .callStatic .integerValueOf] t
  | scalar {t : Supply} {note : Note} {op : BinaryOp} {lhs rhs : Expr} {cond cond' : Cond} :
      op.cond? = some cond → comparison? op cond lhs.ty rhs.ty = some (.scalar cond') →
      BinaryCode t (.binary note op lhs rhs) lhs rhs (unboxing lhs.ty)
        (unboxing rhs.ty ++ truthCode (.ifInt cond') t.labels) t.withLabels
  | text {t : Supply} {note : Note} {op : BinaryOp} {lhs rhs : Expr} {cond : Cond} :
      op.cond? = some cond → comparison? op cond lhs.ty rhs.ty = some .text →
      BinaryCode t (.binary note op lhs rhs) lhs rhs []
        (.callVirtual .stringEquals ::
          truthCode (if op = .eq then .ifNonzero else .ifZero) t.labels) t.withLabels
  | identity {t : Supply} {note : Note} {op : BinaryOp} {lhs rhs : Expr} {cond : Cond} :
      op.cond? = some cond → comparison? op cond lhs.ty rhs.ty = some .identity →
      BinaryCode t (.binary note op lhs rhs) lhs rhs [] (truthCode (.ifRef (op = .eq)) t.labels)
        t.withLabels
  | index {t : Supply} {note : Note} {base index : Expr} {element : Ty} :
      base.ty.element? = some element → index.ty = .int →
      BinaryCode t (.index note base [index]) base index []
        (.callVirtual .intValue :: .callVirtual .listGet :: elementCode element) t

/-- The code that pushes the function pointer a call goes through. -/
inductive CalleeCode (env : Env) (scope : ScopeId) :
    Supply → String → List Instruction → Supply → Prop
  | fn {t : Supply} {name : String} {binding : FunctionBinding} :
      env.symbols.lookup scope name = some (.fn binding) →
      CalleeCode env scope t name (closureCode name) t
  | var {t : Supply} {name : String} :
      t.HasRoom → (∀ binding, env.symbols.lookup scope name ≠ some (.fn binding)) →
      CalleeCode env scope t name [.load (t.slotOf (.var name)), .cast ClassName.closure]
        (t.withSlot (.var name))

mutual

/-- **The code of an expression.** -/
inductive ExprCode (env : Env) (scope : ScopeId) :
    Nat → Supply → Expr → List Instruction → Supply → Prop
  | leaf {depth : Nat} {t u : Supply} {e : Expr} {code : List Instruction} :
      LeafCode env scope t e code u → ExprCode env scope depth t e code u
  | unary {depth : Nat} {t u v : Supply} {e operand : Expr} {code last : List Instruction} :
      producesValue env scope operand = true → ExprCode env scope depth t operand code u →
      UnaryCode u e operand last v → ExprCode env scope depth t e (code ++ last) v
  | binary {depth : Nat} {t u v w : Supply} {e lhs rhs : Expr}
      {first middle second last : List Instruction} :
      producesValue env scope lhs = true → ExprCode env scope depth t lhs first u →
      producesValue env scope rhs = true → ExprCode env scope depth u rhs second v →
      BinaryCode v e lhs rhs middle last w →
      ExprCode env scope depth t e (first ++ middle ++ second ++ last) w
  | list {depth : Nat} {t u : Supply} {note : Note} {elements : List Expr}
      {code : List Instruction} :
      t.HasRoom →
      ElementsCode env scope depth (t.slotOf (.listLiteral t.literals)) t.withLiteral elements code
        u →
      ExprCode env scope depth t (.list note elements)
        (arrayCode (t.slotOf (.listLiteral t.literals)) ++ code ++
          wrapCode (t.slotOf (.listLiteral t.literals))) u
  | call {depth : Nat} {t u v : Supply} {note note' : Note} {name : String} {args : List Expr}
      {first code : List Instruction} :
      CalleeCode env scope t name first u → u.HasRoom →
      ElementsCode env scope (depth + 1) (u.slotOf (.callArgs name depth))
        (u.withSlot (.callArgs name depth)) args code v →
      ExprCode env scope depth t (.call note (.ident note' name) args)
        (first ++ arrayCode (u.slotOf (.callArgs name depth)) ++ code ++
          [.load (u.slotOf (.callArgs name depth)), .callVirtual .closureInvoke] ++
          resultCode (callType env scope name note.ty)) v

/-- The code that adds expressions to the array in a slot. -/
inductive ElementsCode (env : Env) (scope : ScopeId) :
    Nat → Nat → Supply → List Expr → List Instruction → Supply → Prop
  | nil {depth slot : Nat} {t : Supply} : ElementsCode env scope depth slot t [] [] t
  | cons {depth slot : Nat} {t u v : Supply} {e : Expr} {rest : List Expr}
      {code codes : List Instruction} :
      producesValue env scope e = true → ExprCode env scope depth t e code u →
      ElementsCode env scope depth slot u rest codes v →
      ElementsCode env scope depth slot t (e :: rest)
        (.load slot :: openCopy e.ty ++ code ++ closeCopy e.ty ++ [.callVirtual .arrayAdd, .pop] ++
          codes) v

end

/-! ### Lowering expressions -/

lemma does_requireValue {env : Env} {scope : ScopeId} {e : Expr} {s s' : State} {u : Unit} :
    (requireValue env scope e).Does s u s' ↔ producesValue env scope e = true ∧ s' = s := by
  rw [requireValue]
  split <;> simp_all

lemma does_expectTy {e : Expr} {ty : Ty} {role : OperandRole} {s s' : State} {u : Unit} :
    (expectTy e ty role).Does s u s' ↔ e.ty = ty ∧ s' = s := by
  rw [expectTy]
  split <;> simp_all

lemma does_newClosure {name : String} {s s' : State} {u : Unit} :
    (newClosure name).Does s u s' ↔ s' = s.grown (closureCode name) s.supply :=
  does_emitAll

lemma does_newArray {slot : Nat} {s s' : State} {u : Unit} :
    (newArray slot).Does s u s' ↔ s' = s.grown (arrayCode slot) s.supply :=
  does_emitAll

lemma does_loadVariable {name : String} {ty : Ty} {s s' : State} {u : Unit} :
    (loadVariable name ty).Does s u s' ↔ s.supply.HasRoom ∧
      s' = s.grown (.load (s.supply.slotOf (.var name)) :: downcast ty)
        (s.supply.withSlot (.var name)) := by
  simp [loadVariable, does_bind, and_assoc]

lemma does_truthOf {branch : Label → Instruction} {s s' : State} {u : Unit} :
    (truthOf branch).Does s u s' ↔
      s' = s.grown (truthCode branch s.supply.labels) s.supply.withLabels := by
  simp [truthOf, does_two_labels, truthCode]

lemma does_finishCall {slot : Nat} {ret : Ty} {s s' : State} {u : Unit} :
    (finishCall slot ret).Does s u s' ↔
      s' = s.grown ([.load slot, .callVirtual .closureInvoke] ++ resultCode ret) s.supply := by
  simp only [finishCall, resultCode, does_bind, does_emitAll]
  split <;> simp

lemma does_lowerIdent {env : Env} {scope : ScopeId} {note : Note} {name : String} {s s' : State}
    {u : Unit} : (lowerIdent env scope name note.ty).Does s u s' ↔
      ∃ code t, LeafCode env scope s.supply (.ident note name) code t ∧ s' = s.grown code t := by
  constructor
  · intro h
    rw [lowerIdent] at h
    split at h
    · next hl => exact ⟨_, _, .fn hl, does_newClosure.1 h⟩
    · next hl =>
        obtain ⟨hroom, hgrown⟩ := does_loadVariable.1 h
        exact ⟨_, _, .var hroom (by simp [variableTy?, hl]), hgrown⟩
    · next hl =>
        obtain ⟨hroom, hgrown⟩ := does_loadVariable.1 h
        exact ⟨_, _, .var hroom (by simp [variableTy?, hl]), hgrown⟩
  · rintro ⟨code, t, h, rfl⟩
    rw [lowerIdent]
    cases h with
    | fn hl => simp [hl, does_newClosure]
    | var hroom hty =>
        rw [variableTy?] at hty
        split at hty <;> simp_all [does_loadVariable]

lemma does_lowerCallee {env : Env} {scope : ScopeId} {name : String} {s s' : State} {u : Unit} :
    (lowerCallee env scope name).Does s u s' ↔
      ∃ code t, CalleeCode env scope s.supply name code t ∧ s' = s.grown code t := by
  have asVariable : (∀ b, env.symbols.lookup scope name ≠ some (.fn b)) →
      ((lowerCallee env scope name).Does s u s' ↔ s.supply.HasRoom ∧
        s' = s.grown [.load (s.supply.slotOf (.var name)), .cast ClassName.closure]
          (s.supply.withSlot (.var name))) := by
    intro hl
    rw [lowerCallee]
    split
    · next hl' => exact absurd hl' (hl _)
    · simp [does_bind, and_assoc]
  constructor
  · intro h
    by_cases hl : ∃ b, env.symbols.lookup scope name = some (.fn b)
    · obtain ⟨b, hl⟩ := hl
      rw [lowerCallee, hl] at h
      exact ⟨_, _, .fn hl, does_newClosure.1 h⟩
    · have hl' : ∀ b, env.symbols.lookup scope name ≠ some (.fn b) := fun b hb => hl ⟨b, hb⟩
      obtain ⟨hroom, hgrown⟩ := (asVariable hl').1 h
      exact ⟨_, _, .var hroom hl', hgrown⟩
  · rintro ⟨code, t, h, rfl⟩
    cases h with
    | fn hl => rw [lowerCallee, hl]; exact does_newClosure.2 rfl
    | var hroom hl => exact (asVariable hl).2 ⟨hroom, rfl⟩

/-! Each form of expression is lowered by lowering its parts and adding a fixed shape of code. -/

/-- Increment and decrement share one branch of lowering. -/
lemma lowerExpr_count {env : Env} {scope : ScopeId} {note : Note} {op : UnaryOp} {operand : Expr}
    {name : String} (hop : op = .inc ∨ op = .dec) (hname : operand.ident? = some name) :
    lowerExpr env scope (.unary note op operand) = (do
      expectTy operand .int .increment
      requireValue env scope operand
      lowerExpr env scope operand
      emitAll (unboxing operand.ty)
      emitAll [.ldc (.int 1), .arith (if op = .inc then .add else .sub)]
      emitAll (boxing .int)
      emit .dup
      let slot ← varSlot name
      emit (.store slot)) := by
  rcases hop with rfl | rfl <;> simp [lowerExpr, hname]

/-- A copied element and one that goes in as it is are lowered alike. -/
lemma lowerElements_cons {env : Env} {scope : ScopeId} {slot : Nat} {e : Expr} {rest : List Expr} :
    lowerElements env scope slot (e :: rest) = (do
      emit (.load slot)
      if e.ty.isList then emitAll [.new ClassName.list, .dup] else pure ()
      requireValue env scope e
      lowerExpr env scope e
      if e.ty.isList then emit (.construct .listCopy) else pure ()
      emitAll [.callVirtual .arrayAdd, .pop]
      lowerElements env scope slot rest) := by
  rw [lowerElements]
  split <;> simp

/-- The code of an operator with one operand. -/
lemma does_unary {env : Env} {scope : ScopeId} {note : Note} {op : UnaryOp} {operand : Expr}
    {s s' : State} : (lowerExpr env scope (.unary note op operand)).Does s () s' ↔
      producesValue env scope operand = true ∧ ∃ r last u,
        (lowerExpr env scope operand).Does s () r ∧
        UnaryCode r.supply (.unary note op operand) operand last u ∧ s' = r.grown last u := by
  constructor
  · intro h
    have counted : op = .inc ∨ op = .dec → producesValue env scope operand = true ∧
        ∃ r last u, (lowerExpr env scope operand).Does s () r ∧
          UnaryCode r.supply (.unary note op operand) operand last u ∧ s' = r.grown last u := by
      intro hop
      cases hname : operand.ident? with
      | none => rcases hop with rfl | rfl <;> simp [lowerExpr, hname] at h
      | some name =>
          simp only [lowerExpr_count hop hname, does_bind, does_expectTy, does_requireValue,
            does_emit, does_emitAll, does_varSlot, exists_unit] at h
          obtain ⟨_, ⟨hty, rfl⟩, _, ⟨hv, rfl⟩, r, h, _, rfl, _, rfl, _, rfl, _, rfl, _, _,
            ⟨hroom, rfl, rfl⟩, rfl⟩ := h
          exact ⟨hv, r, _, _, h, .count hroom hop hname hty, by simp [hty, unboxing, boxing]⟩
    cases op with
    | neg =>
        simp only [lowerExpr, does_bind, does_expectTy, does_requireValue, does_emit, does_emitAll,
          exists_unit] at h
        obtain ⟨_, ⟨hty, rfl⟩, _, ⟨hv, rfl⟩, r, h, _, rfl, _, rfl, rfl⟩ := h
        exact ⟨hv, r, _, _, h, .neg hty, by simp [hty, unboxing, boxing]⟩
    | not =>
        simp only [lowerExpr, does_bind, does_expectTy, does_requireValue, does_emitAll,
          exists_unit] at h
        obtain ⟨_, ⟨hty, rfl⟩, _, ⟨hv, rfl⟩, r, h, _, rfl, _, rfl, rfl⟩ := h
        exact ⟨hv, r, _, _, h, .not hty, by simp [hty, unboxing, boxing]⟩
    | inc => exact counted (.inl rfl)
    | dec => exact counted (.inr rfl)
  · rintro ⟨hv, r, last, u, h, hcode, rfl⟩
    cases hcode with
    | neg hty =>
        simp only [lowerExpr, does_bind, does_expectTy, does_requireValue, does_emit, does_emitAll,
          exists_unit]
        exact ⟨_, ⟨hty, rfl⟩, _, ⟨hv, rfl⟩, r, h, _, rfl, _, rfl, by simp [hty, unboxing, boxing]⟩
    | not hty =>
        simp only [lowerExpr, does_bind, does_expectTy, does_requireValue, does_emitAll,
          exists_unit]
        exact ⟨_, ⟨hty, rfl⟩, _, ⟨hv, rfl⟩, r, h, _, rfl, _, rfl, by simp [hty, unboxing, boxing]⟩
    | count hroom hop hname hty =>
        simp only [lowerExpr_count hop hname, does_bind, does_expectTy, does_requireValue,
          does_emit, does_emitAll, does_varSlot, exists_unit]
        exact ⟨_, ⟨hty, rfl⟩, _, ⟨hv, rfl⟩, r, h, _, rfl, _, rfl, _, rfl, _, rfl, _, _,
          ⟨hroom, rfl, rfl⟩, by simp [hty, unboxing, boxing]⟩

lemma does_len {env : Env} {scope : ScopeId} {note : Note} {operand : Expr} {s s' : State} :
    (lowerExpr env scope (.len note operand)).Does s () s' ↔
      producesValue env scope operand = true ∧ ∃ r last u,
        (lowerExpr env scope operand).Does s () r ∧
        UnaryCode r.supply (.len note operand) operand last u ∧ s' = r.grown last u := by
  simp only [lowerExpr, does_bind, does_requireValue, exists_unit]
  constructor
  · rintro ⟨_, ⟨hv, rfl⟩, r, h, hlen⟩
    refine ⟨hv, r, ?_⟩
    split at hlen
    · next hty => exact ⟨_, _, h, .lenText hty, by simpa [does_bind, boxing] using hlen⟩
    · next hty => exact ⟨_, _, h, .lenList hty, by simpa [does_bind, boxing] using hlen⟩
    · simp [does_bind] at hlen
  · rintro ⟨hv, r, last, u, h, hcode, rfl⟩
    refine ⟨s, ⟨hv, rfl⟩, r, h, ?_⟩
    cases hcode with
    | lenText hty => simp [hty, does_bind, boxing]
    | lenList hty => simp [hty, does_bind, boxing]

lemma does_chop {env : Env} {scope : ScopeId} {note : Note} {operand : Expr} {s s' : State} :
    (lowerExpr env scope (.chop note operand)).Does s () s' ↔
      producesValue env scope operand = true ∧ ∃ r last u,
        (lowerExpr env scope operand).Does s () r ∧
        UnaryCode r.supply (.chop note operand) operand last u ∧ s' = r.grown last u := by
  simp only [lowerExpr, does_bind, does_expectTy, does_requireValue, does_emitAll, exists_unit]
  constructor
  · rintro ⟨_, ⟨hty, rfl⟩, _, ⟨hv, rfl⟩, r, h, rfl⟩
    exact ⟨hv, r, _, _, h, .chop hty, by simp [chopCode]⟩
  · rintro ⟨hv, r, last, u, h, hcode, rfl⟩
    cases hcode with
    | chop hty => exact ⟨_, ⟨hty, rfl⟩, _, ⟨hv, rfl⟩, r, h, by simp [chopCode]⟩

/-- The code of an operator with two operands. -/
lemma does_binary {env : Env} {scope : ScopeId} {note : Note} {op : BinaryOp} {lhs rhs : Expr}
    {s s' : State} : (lowerExpr env scope (.binary note op lhs rhs)).Does s () s' ↔
      producesValue env scope lhs = true ∧ producesValue env scope rhs = true ∧
        ∃ r r' middle last u, (lowerExpr env scope lhs).Does s () r ∧
          (lowerExpr env scope rhs).Does (r.grown middle r.supply) () r' ∧
          BinaryCode r'.supply (.binary note op lhs rhs) lhs rhs middle last u ∧
          s' = r'.grown last u := by
  constructor
  · intro h
    rw [lowerExpr] at h
    cases hcond : op.cond? with
    | none =>
        simp only [hcond, does_bind, does_expectTy, does_requireValue, does_emit, does_emitAll,
          exists_unit] at h
        obtain ⟨_, ⟨hl, rfl⟩, _, ⟨hr, rfl⟩, _, ⟨hv, rfl⟩, r, h, _, rfl, _, ⟨hv', rfl⟩, r', h',
          _, rfl, _, rfl, rfl⟩ := h
        refine ⟨hv, hv', r, r', _, _, _, h, ?_, .arith hcond hl hr, ?_⟩
        · simpa [hl, unboxing] using h'
        · simp [hr, unboxing, boxing]
    | some cond =>
        cases hcmp : comparison? op cond lhs.ty rhs.ty with
        | none => simp [hcond, hcmp] at h
        | some comparison =>
            cases comparison with
            | scalar cond' =>
                simp only [hcond, hcmp, does_bind, does_requireValue, does_emitAll, does_truthOf,
                  exists_unit] at h
                obtain ⟨_, ⟨hv, rfl⟩, r, h, _, rfl, _, ⟨hv', rfl⟩, r', h', _, rfl, rfl⟩ := h
                exact ⟨hv, hv', r, r', _, _, _, h, h', .scalar hcond hcmp, by simp⟩
            | text =>
                simp only [hcond, hcmp, does_bind, does_requireValue, does_emit, does_truthOf,
                  exists_unit] at h
                obtain ⟨_, ⟨hv, rfl⟩, _, h, r, ⟨hv', rfl⟩, r', h', _, rfl, rfl⟩ := h
                exact ⟨hv, hv', r, r', [], _, _, h, by simpa using h', .text hcond hcmp, by simp⟩
            | identity =>
                simp only [hcond, hcmp, does_bind, does_requireValue, does_truthOf,
                  exists_unit] at h
                obtain ⟨_, ⟨hv, rfl⟩, _, h, r, ⟨hv', rfl⟩, r', h', rfl⟩ := h
                exact ⟨hv, hv', r, r', [], _, _, h, by simpa using h', .identity hcond hcmp, rfl⟩
  · rintro ⟨hv, hv', r, r', middle, last, u, h, h', hcode, rfl⟩
    rw [lowerExpr]
    cases hcode with
    | arith hcond hl hr =>
        simp only [hcond, does_bind, does_expectTy, does_requireValue, does_emit, does_emitAll,
          exists_unit]
        refine ⟨_, ⟨hl, rfl⟩, _, ⟨hr, rfl⟩, _, ⟨hv, rfl⟩, r, h, _, rfl, _, ⟨hv', rfl⟩, r', ?_,
          _, rfl, _, rfl, ?_⟩
        · simpa [hl, unboxing] using h'
        · simp [hr, unboxing, boxing]
    | scalar hcond hcmp =>
        simp only [hcond, hcmp, does_bind, does_requireValue, does_emitAll, does_truthOf,
          exists_unit]
        exact ⟨_, ⟨hv, rfl⟩, r, h, _, rfl, _, ⟨hv', rfl⟩, r', h', _, rfl, by simp⟩
    | text hcond hcmp =>
        simp only [hcond, hcmp, does_bind, does_requireValue, does_emit, does_truthOf, exists_unit]
        exact ⟨_, ⟨hv, rfl⟩, r, h, _, ⟨hv', rfl⟩, r', by simpa using h', _, rfl, by simp⟩
    | identity hcond hcmp =>
        simp only [hcond, hcmp, does_bind, does_requireValue, does_truthOf, exists_unit]
        exact ⟨_, ⟨hv, rfl⟩, r, h, _, ⟨hv', rfl⟩, r', by simpa using h', rfl⟩

lemma does_index {env : Env} {scope : ScopeId} {note : Note} {base : Expr} {indices : List Expr}
    {s s' : State} : (lowerExpr env scope (.index note base indices)).Does s () s' ↔
      ∃ index, indices = [index] ∧ producesValue env scope base = true ∧
        producesValue env scope index = true ∧
        ∃ r r' middle last u, (lowerExpr env scope base).Does s () r ∧
          (lowerExpr env scope index).Does (r.grown middle r.supply) () r' ∧
          BinaryCode r'.supply (.index note base [index]) base index middle last u ∧
          s' = r'.grown last u := by
  constructor
  · intro h
    rcases indices with _ | ⟨index, _ | ⟨index', rest⟩⟩
    · simp [lowerExpr] at h
    · cases helement : base.ty.element? with
      | none => simp [lowerExpr, helement] at h
      | some element =>
          simp only [lowerExpr, helement, does_bind, does_expectTy, does_requireValue, does_emit,
            does_emitAll, exists_unit] at h
          obtain ⟨_, ⟨hindex, rfl⟩, _, ⟨hv, rfl⟩, _, h, r, ⟨hv', rfl⟩, r', h', _, rfl, _, rfl,
            hlast⟩ := h
          refine ⟨index, rfl, hv, hv', r, r', [], _, _, h, by simpa using h',
            .index helement hindex, ?_⟩
          rw [elementCode]
          split at hlast <;> simp_all [unboxing]
    · simp [lowerExpr] at h
  · rintro ⟨index, rfl, hv, hv', r, r', middle, last, u, h, h', hcode, rfl⟩
    cases hcode with
    | index helement hindex =>
        simp only [lowerExpr, helement, does_bind, does_expectTy, does_requireValue, does_emit,
          does_emitAll, exists_unit]
        refine ⟨_, ⟨hindex, rfl⟩, _, ⟨hv, rfl⟩, r, h, _, ⟨hv', rfl⟩, r',
          by simpa using h', _, rfl, _, rfl, ?_⟩
        rw [elementCode]
        split <;> simp [unboxing]

lemma does_list {env : Env} {scope : ScopeId} {note : Note} {elements : List Expr}
    {s s' : State} : (lowerExpr env scope (.list note elements)).Does s () s' ↔
      s.supply.HasRoom ∧ ∃ r,
    (lowerElements env scope (s.supply.slotOf (.listLiteral s.supply.literals))
          elements).Does
            (s.grown (arrayCode (s.supply.slotOf (.listLiteral s.supply.literals)))
              s.supply.withLiteral) () r ∧
        s' = r.grown (wrapCode (s.supply.slotOf (.listLiteral s.supply.literals))) r.supply := by
  simp only [lowerExpr, does_bind, does_listLiteralSlot, does_newArray, does_emitAll, exists_unit]
  constructor
  · rintro ⟨_, _, ⟨hroom, rfl, rfl⟩, _, rfl, r, h, rfl⟩
    exact ⟨hroom, r, by simpa using h, rfl⟩
  · rintro ⟨hroom, r, h, rfl⟩
    exact ⟨_, _, ⟨hroom, rfl, rfl⟩, _, rfl, r, by simpa using h, rfl⟩

lemma does_call {env : Env} {scope : ScopeId} {note : Note} {callee : Expr} {args : List Expr}
    {s s' : State} : (lowerExpr env scope (.call note callee args)).Does s () s' ↔
      ∃ note' name, callee = .ident note' name ∧
        ∃ first u, CalleeCode env scope s.supply name first u ∧ u.HasRoom ∧
        ∃ r, (lowerElements env scope (u.slotOf (.callArgs name s.callDepth)) args).Does
            (s.grown (first ++ arrayCode (u.slotOf (.callArgs name s.callDepth)))
              (u.withSlot (.callArgs name s.callDepth))).deeper () r ∧
          s' = r.shallower.grown
            ([.load (u.slotOf (.callArgs name s.callDepth)), .callVirtual .closureInvoke] ++
              resultCode (callType env scope name note.ty)) r.supply := by
  have supply_shallower : ∀ r : State, r.shallower.supply = r.supply := fun r => rfl
  have deeper_grown : ∀ (r : State) code t, r.deeper.grown code t = (r.grown code t).deeper :=
    fun r code t => rfl
  constructor
  · intro h
    cases callee with
    | ident note' name =>
        simp only [lowerExpr, Expr.ident?, does_bind, does_lowerCallee, does_get, does_slotOf,
          does_inCall, does_newArray, does_finishCall, exists_unit] at h
        obtain ⟨_, ⟨first, u, hfirst, rfl⟩, _, _, ⟨rfl, rfl⟩, _, _, ⟨hroom, rfl, rfl⟩, _,
          ⟨r, ⟨_, rfl, h⟩, rfl⟩, rfl⟩ := h
        refine ⟨note', name, rfl, first, u, hfirst, hroom, r, ?_, by simp [supply_shallower]⟩
        simpa [deeper_grown] using h
    | _ => simp [lowerExpr, Expr.ident?] at h
  · rintro ⟨note', name, rfl, first, u, hfirst, hroom, r, h, rfl⟩
    simp only [lowerExpr, Expr.ident?, does_bind, does_lowerCallee, does_get, does_slotOf,
      does_inCall, does_newArray, does_finishCall, exists_unit]
    refine ⟨_, ⟨first, u, hfirst, rfl⟩, _, _, ⟨rfl, rfl⟩, _, _, ⟨hroom, rfl, rfl⟩, _,
      ⟨r, ⟨_, rfl, ?_⟩, rfl⟩, ?_⟩
    · simpa [deeper_grown] using h
    · simp [supply_shallower]

lemma does_elements_cons {env : Env} {scope : ScopeId} {slot : Nat} {e : Expr} {rest : List Expr}
    {s s' : State} : (lowerElements env scope slot (e :: rest)).Does s () s' ↔
      producesValue env scope e = true ∧
        ∃ r, (lowerExpr env scope e).Does (s.grown (.load slot :: openCopy e.ty) s.supply) () r ∧
          (lowerElements env scope slot rest).Does
            (r.grown (closeCopy e.ty ++ [.callVirtual .arrayAdd, .pop]) r.supply) () s' := by
  rw [lowerElements_cons, openCopy, closeCopy]
  split <;> simp [does_bind, does_requireValue, and_assoc]

mutual

/-- Lowering an expression, where it succeeds, emits code of the shape of the expression. -/
theorem exprCode_of_does {env : Env} {scope : ScopeId} (e : Expr) {s s' : State}
    (h : (lowerExpr env scope e).Does s () s') :
    ∃ code u, ExprCode env scope s.callDepth s.supply e code u ∧ s' = s.grown code u := by
  cases e with
  | int note value => exact ⟨_, _, .leaf .int, by simpa [lowerExpr, boxing] using h⟩
  | bool note value => exact ⟨_, _, .leaf .bool, by simpa [lowerExpr, boxing] using h⟩
  | str note value => exact ⟨_, _, .leaf .str, by simpa [lowerExpr] using h⟩
  | ident note name =>
      rw [lowerExpr, does_lowerIdent] at h
      obtain ⟨code, u, h, rfl⟩ := h
      exact ⟨code, u, .leaf h, rfl⟩
  | fnPtr note name => exact ⟨_, _, .leaf .pointer, by simpa [lowerExpr, does_newClosure] using h⟩
  | list note elements =>
      obtain ⟨hroom, r, h1, rfl⟩ := does_list.1 h
      obtain ⟨code, u, helements, rfl⟩ := elementsCode_of_does elements h1
      exact ⟨_, u, .list hroom helements, by simp⟩
  | call note callee args =>
      obtain ⟨note', name, rfl, first, u, hfirst, hroom, r, h1, rfl⟩ := does_call.1 h
      obtain ⟨code, v, hargs, rfl⟩ := elementsCode_of_does args h1
      refine ⟨_, v, .call hfirst hroom hargs, ?_⟩
      rw [State.shallower_deeper_grown]
      simp
  | index note base indices =>
      obtain ⟨index, rfl, hv, hv', r, r', middle, last, w, h1, h2, hcode, rfl⟩ := does_index.1 h
      obtain ⟨first, u, hbase, rfl⟩ := exprCode_of_does base h1
      obtain ⟨second, v, hindex, rfl⟩ := exprCode_of_does index h2
      exact ⟨_, w, .binary hv hbase hv' hindex hcode, by simp⟩
  | binary note op lhs rhs =>
      obtain ⟨hv, hv', r, r', middle, last, w, h1, h2, hcode, rfl⟩ := does_binary.1 h
      obtain ⟨first, u, hlhs, rfl⟩ := exprCode_of_does lhs h1
      obtain ⟨second, v, hrhs, rfl⟩ := exprCode_of_does rhs h2
      exact ⟨_, w, .binary hv hlhs hv' hrhs hcode, by simp⟩
  | unary note op operand =>
      obtain ⟨hv, r, last, v, h1, hcode, rfl⟩ := does_unary.1 h
      obtain ⟨code, u, hoperand, rfl⟩ := exprCode_of_does operand h1
      exact ⟨_, v, .unary hv hoperand hcode, by simp⟩
  | len note operand =>
      obtain ⟨hv, r, last, v, h1, hcode, rfl⟩ := does_len.1 h
      obtain ⟨code, u, hoperand, rfl⟩ := exprCode_of_does operand h1
      exact ⟨_, v, .unary hv hoperand hcode, by simp⟩
  | chop note operand =>
      obtain ⟨hv, r, last, v, h1, hcode, rfl⟩ := does_chop.1 h
      obtain ⟨code, u, hoperand, rfl⟩ := exprCode_of_does operand h1
      exact ⟨_, v, .unary hv hoperand hcode, by simp⟩

/-- So does lowering the elements of an array. -/
theorem elementsCode_of_does {env : Env} {scope : ScopeId} {slot : Nat} (es : List Expr)
    {s s' : State} (h : (lowerElements env scope slot es).Does s () s') :
    ∃ code u, ElementsCode env scope s.callDepth slot s.supply es code u ∧
      s' = s.grown code u := by
  cases es with
  | nil =>
      simp only [lowerElements, does_pure] at h
      exact ⟨[], _, .nil, by simp [h.2]⟩
  | cons e rest =>
      obtain ⟨hv, r, h1, h2⟩ := does_elements_cons.1 h
      obtain ⟨code, u, he, rfl⟩ := exprCode_of_does e h1
      obtain ⟨codes, v, hrest, rfl⟩ := elementsCode_of_does rest h2
      exact ⟨_, v, .cons hv he hrest, by simp⟩

end

lemma LeafCode.does {env : Env} {scope : ScopeId} {e : Expr} {s : State} {code : List Instruction}
    {u : Supply} (hcode : LeafCode env scope s.supply e code u) :
    (lowerExpr env scope e).Does s () (s.grown code u) := by
  have shape := hcode
  cases hcode with
  | int | bool => simp [lowerExpr, boxing]
  | str => simp [lowerExpr]
  | fn _ | var _ _ =>
      rw [lowerExpr]
      exact does_lowerIdent.2 ⟨_, _, shape, rfl⟩
  | pointer => simp [lowerExpr, does_newClosure]

lemma UnaryCode.does {env : Env} {scope : ScopeId} {e operand : Expr} {s r : State}
    {last : List Instruction} {u : Supply}
    (h : (lowerExpr env scope operand).Does s () r)
    (hv : producesValue env scope operand = true)
    (hcode : UnaryCode r.supply e operand last u) :
    (lowerExpr env scope e).Does s () (r.grown last u) := by
  have shape := hcode
  cases hcode with
  | neg _ | not _ | count _ _ _ _ => exact does_unary.2 ⟨hv, r, _, _, h, shape, rfl⟩
  | lenText _ | lenList _ => exact does_len.2 ⟨hv, r, _, _, h, shape, rfl⟩
  | chop _ => exact does_chop.2 ⟨hv, r, _, _, h, shape, rfl⟩

lemma BinaryCode.does {env : Env} {scope : ScopeId} {e lhs rhs : Expr} {s r r' : State}
    {middle last : List Instruction} {u : Supply}
    (h : (lowerExpr env scope lhs).Does s () r)
    (h' : (lowerExpr env scope rhs).Does (r.grown middle r.supply) () r')
    (hv : producesValue env scope lhs = true) (hv' : producesValue env scope rhs = true)
    (hcode : BinaryCode r'.supply e lhs rhs middle last u) :
    (lowerExpr env scope e).Does s () (r'.grown last u) := by
  have shape := hcode
  cases hcode with
  | arith _ _ _ | scalar _ _ | text _ _ | identity _ _ =>
      exact does_binary.2 ⟨hv, hv', r, r', _, _, _, h, h', shape, rfl⟩
  | index _ _ => exact does_index.2 ⟨_, rfl, hv, hv', r, r', _, _, _, h, h', shape, rfl⟩

mutual

/-- Code of the shape of an expression is what lowering the expression emits. -/
theorem ExprCode.does {env : Env} {scope : ScopeId} {depth : Nat} {t u : Supply} {e : Expr}
    {code : List Instruction} (h : ExprCode env scope depth t e code u) (s : State)
    (hdepth : s.callDepth = depth) (ht : s.supply = t) :
    (lowerExpr env scope e).Does s () (s.grown code u) := by
  match h with
  | .leaf hleaf =>
      subst ht
      exact hleaf.does
  | .unary hv hoperand hcode =>
      have h1 := hoperand.does s hdepth ht
      simpa using UnaryCode.does h1 hv hcode
  | @ExprCode.binary _ _ _ _ u _ _ _ _ _ first middle _ _ hv hlhs hv' hrhs hcode =>
      have h1 := hlhs.does s hdepth ht
      have h2 := hrhs.does ((s.grown first u).grown middle u) hdepth rfl
      simpa using BinaryCode.does h1 h2 hv hv' hcode
  | .list hroom helements =>
      have h1 := helements.does (s.grown (arrayCode (t.slotOf (.listLiteral t.literals)))
        t.withLiteral) hdepth rfl
      subst ht
      exact does_list.2 ⟨hroom, _, h1, by simp⟩
  | @ExprCode.call _ _ _ _ u _ _ _ name _ first _ hfirst hroom hargs =>
      have h1 := hargs.does (s.grown (first ++ arrayCode (u.slotOf (.callArgs name depth)))
        (u.withSlot (.callArgs name depth))).deeper (congrArg (· + 1) hdepth) rfl
      subst hdepth ht
      refine does_call.2 ⟨_, _, rfl, _, _, hfirst, hroom, _, h1, ?_⟩
      rw [State.shallower_deeper_grown]
      simp

theorem ElementsCode.does {env : Env} {scope : ScopeId} {depth slot : Nat} {t u : Supply}
    {es : List Expr} {code : List Instruction} (h : ElementsCode env scope depth slot t es code u)
    (s : State) (hdepth : s.callDepth = depth) (ht : s.supply = t) :
    (lowerElements env scope slot es).Does s () (s.grown code u) := by
  match h with
  | .nil =>
      subst ht
      simp [lowerElements]
  | @ElementsCode.cons _ _ _ _ _ u _ e _ code _ hv he hrest =>
      have h1 := he.does (s.grown (.load slot :: openCopy e.ty) s.supply) hdepth ht
      have h2 := hrest.does (((s.grown (.load slot :: openCopy e.ty) s.supply).grown code u).grown
        (closeCopy e.ty ++ [.callVirtual .arrayAdd, .pop]) u) hdepth rfl
      exact does_elements_cons.2 ⟨hv, _, h1, by simpa using h2⟩

end

/-- **Lowering an expression succeeds exactly in the ways its shape allows.** -/
theorem lowerExpr_does_iff {env : Env} {scope : ScopeId} {e : Expr} {s s' : State} {x : Unit} :
    (lowerExpr env scope e).Does s x s' ↔
      ∃ code u, ExprCode env scope s.callDepth s.supply e code u ∧ s' = s.grown code u := by
  constructor
  · exact exprCode_of_does e
  · rintro ⟨code, u, h, rfl⟩
    exact h.does s rfl rfl

end StackBackend.Lowering
