import StackBackend.Proofs.Lowering.Shape.Expression

/-!
# The shape of lowered statements

`StmtCode env depth loop scope t stmt code u` says that a statement, lowered inside the loop `loop`
with the supply `t` at hand, becomes `code` and leaves the supply `u`; `BlockCode` says so of a
block.  Statements without a block of their own are in `PlainCode`, so that the recursion is left
with a conditional and a loop.

* `stmtCode_of_does`, `blockCode_of_does` — lowering that succeeds emits code of this shape;
* `StmtCode.does`, `BlockCode.does` — and code of this shape is what lowering emits.

Lowering a loop counts it as entered and left.  The counters are never read, so the state
afterwards is described by `State.Grows`, which leaves them open and fixes all else.
-/

namespace StackBackend.Lowering

open Emit

/-! ## Growing past loops -/

/-- `s'` is `s` with `code` appended and the supply `t`, and inside the same loops. -/
def State.Grows (s : State) (code : List Instruction) (t : Supply) (s' : State) : Prop :=
  s'.loops.loops = s.loops.loops ∧ s' = { s.grown code t with loops := s'.loops }

namespace State

lemma grows_grown (s : State) (code : List Instruction) (t : Supply) :
    s.Grows code t (s.grown code t) := ⟨rfl, rfl⟩

lemma Grows.supply {s s' : State} {code : List Instruction} {t : Supply}
    (h : s.Grows code t s') : s'.supply = t := by
  rw [h.2]
  rfl

lemma Grows.labels {s s' : State} {code : List Instruction} {t : Supply}
    (h : s.Grows code t s') : s'.labels = ⟨t.labels⟩ := by
  rw [h.2]
  rfl

lemma Grows.callDepth {s s' : State} {code : List Instruction} {t : Supply}
    (h : s.Grows code t s') : s'.callDepth = s.callDepth := by
  rw [h.2]
  rfl

lemma Grows.code {s s' : State} {code : List Instruction} {t : Supply}
    (h : s.Grows code t s') : s'.code = s.code ++ code := by
  rw [h.2]
  rfl

lemma Grows.innermost {s s' : State} {code : List Instruction} {t : Supply}
    (h : s.Grows code t s') : s'.loops.innermost? = s.loops.innermost? :=
  congrArg List.head? h.1

lemma Grows.trans {s r s' : State} {code more : List Instruction} {t u : Supply}
    (h : s.Grows code t r) (h' : r.Grows more u s') : s.Grows (code ++ more) u s' := by
  refine ⟨h'.1.trans h.1, ?_⟩
  have joined := State.grown_grown s code more t u
  rw [h'.2, h.2]
  simp only [State.grown] at joined ⊢
  simpa using congrArg State.code joined

lemma Grows.grown {s r : State} {code : List Instruction} {t : Supply} (h : s.Grows code t r)
    (more : List Instruction) (u : Supply) : s.Grows (code ++ more) u (r.grown more u) :=
  h.trans (r.grows_grown more u)

end State

/-! ## Pieces of code -/

/-- Whether code ends in a return. -/
def endsInReturn (code : List Instruction) : Bool := code.getLast?.any Instruction.isReturn

/-- Jump over what follows, unless the code so far ends in a return. -/
def skipCode (code : List Instruction) (target : Label) : List Instruction :=
  if endsInReturn code then [] else [.jump target]

/-- What stands behind the condition of a conditional. -/
def branchCode (n : Nat) (second third : List Instruction) : List Instruction :=
  [.callVirtual .booleanValue, .ifZero ⟨n⟩] ++ second ++ skipCode second ⟨n + 1⟩ ++ [.label ⟨n⟩] ++
    third ++ [.label ⟨n + 1⟩]

lemma append_branchCode (n : Nat) (first second third : List Instruction) :
    first ++ [Instruction.callVirtual .booleanValue, Instruction.ifZero ⟨n⟩] ++ second ++
        skipCode second ⟨n + 1⟩ ++ [Instruction.label ⟨n⟩] ++ third ++ [Instruction.label ⟨n + 1⟩]
      = first ++ branchCode n second third := by
  simp [branchCode]

/-- What stands behind a value that is printed. -/
def printCode (ty : Ty) (what : Printed) : List Instruction :=
  downcast ty ++ unboxing ty ++ [.callVirtual (.println what)]

lemma append_printCode (code : List Instruction) (ty : Ty) (what : Printed) :
    Instruction.getStatic consoleField :: code ++ downcast ty ++ unboxing ty ++
        [Instruction.callVirtual (.println what)]
      = Instruction.getStatic consoleField :: (code ++ printCode ty what) := by
  simp [printCode]

lemma endsWithReturn_append (before : Code) {last : Instruction} (hlast : last.isReturn = false)
    (code : List Instruction) :
    Code.endsWithReturn (before ++ last :: code) = endsInReturn code := by
  have back : (before ++ last :: code).back? = (last :: code).getLast? := by
    rw [← Array.getLast?_toList]
    simp [List.getLast?_cons]
  rw [Code.endsWithReturn, back, endsInReturn]
  cases code with
  | nil => simpa using hlast
  | cons i rest => simp [List.getLast?_cons]

/-! ## Statements -/

/-- The code of an expression that leaves a value. -/
def ValueCode (env : Env) (scope : ScopeId) (depth : Nat) (t : Supply) (e : Expr)
    (code : List Instruction) (u : Supply) : Prop :=
  producesValue env scope e = true ∧ ExprCode env scope depth t e code u

/-- The code of a statement without a block of its own. -/
inductive PlainCode (env : Env) (depth : Nat) (loop : Option LoopLabels) (scope : ScopeId) :
    Supply → Stmt → List Instruction → Supply → Prop
  | assign {t u : Supply} {span : Span} {target value : Expr} {op : AssignOp} {name : String}
      {code : List Instruction} :
      t.HasRoom → target.ident? = some name →
      ValueCode env scope depth (t.withSlot (.var name)) (assignedValue op target value) code u →
      PlainCode env depth loop scope t (.assign span target none op value)
        (code ++ [.store (t.slotOf (.var name))]) u
  | assignElement {t u v : Supply} {span : Span} {target index value : Expr} {op : AssignOp}
      {name : String} {element : Ty} {first second : List Instruction} :
      t.HasRoom → target.ident? = some name → target.ty.element? = some element →
      index.ty = .int →
      ValueCode env scope depth (t.withSlot (.var name)) index first u →
      ValueCode env scope depth u (assignedValue op
        (.index { ty := element, span := target.span } target [index]) value) second v →
      PlainCode env depth loop scope t (.assign span target (some index) op value)
        ([.load (t.slotOf (.var name)), .cast ClassName.list] ++ first ++
          [.callVirtual .intValue] ++ second ++ [.callVirtual .listSet]) v
  | exitLoop {t : Supply} {span : Span} {labels : LoopLabels} : loop = some labels →
      PlainCode env depth loop scope t (.exitLoop span) [.jump labels.exit] t
  | nextLoop {t : Supply} {span : Span} {labels : LoopLabels} : loop = some labels →
      PlainCode env depth loop scope t (.nextLoop span) [.jump labels.start] t
  | ret {t : Supply} {span : Span} : PlainCode env depth loop scope t (.ret span none) [.ret] t
  | retValue {t u : Supply} {span : Span} {value : Expr} {code : List Instruction} :
      ValueCode env scope depth t value code u →
      PlainCode env depth loop scope t (.ret span (some value)) (code ++ [.retValue]) u
  | put {t u : Supply} {span : Span} {value : Expr} {what : Printed} {code : List Instruction} :
      ValueCode env scope depth t value code u → printed? value.ty = some what →
      PlainCode env depth loop scope t (.put span value)
        (.getStatic consoleField :: code ++ downcast value.ty ++ unboxing value.ty ++
          [.callVirtual (.println what)]) u
  | eval {t u : Supply} {span : Span} {e : Expr} {code : List Instruction} :
      ExprCode env scope depth t e code u →
      PlainCode env depth loop scope t (.eval span e)
        (code ++ if producesValue env scope e then [.pop] else []) u

mutual

/-- **The code of a statement.** -/
inductive StmtCode (env : Env) (depth : Nat) :
    Option LoopLabels → ScopeId → Supply → Stmt → List Instruction → Supply → Prop
  | plain {loop : Option LoopLabels} {scope : ScopeId} {t u : Supply} {stmt : Stmt}
      {code : List Instruction} : PlainCode env depth loop scope t stmt code u →
      StmtCode env depth loop scope t stmt code u
  | branch {loop : Option LoopLabels} {scope : ScopeId} {t u v w : Supply} {span : Span}
      {cond : Expr} {thenBody elseBody : List Stmt} {block : Option ScopeId}
      {first second third : List Instruction} :
      cond.ty = .bool → ValueCode env scope depth t cond first u →
      BlockCode env depth loop (env.symbols.enter scope block) u.withLabels thenBody second v →
      BlockCode env depth loop (env.symbols.enter scope block) v elseBody third w →
      StmtCode env depth loop scope t (.branch span cond thenBody elseBody block)
        (first ++ [.callVirtual .booleanValue, .ifZero ⟨u.labels⟩] ++ second ++
          skipCode second ⟨u.labels + 1⟩ ++ [.label ⟨u.labels⟩] ++ third ++
          [.label ⟨u.labels + 1⟩]) w
  | loop {loop : Option LoopLabels} {scope : ScopeId} {t u : Supply} {span : Span}
      {body : List Stmt} {block : Option ScopeId} {code : List Instruction} :
      BlockCode env depth (some ⟨⟨t.labels⟩, ⟨t.labels + 1⟩⟩) (env.symbols.enter scope block)
        t.withLabels body code u →
      StmtCode env depth loop scope t (.loop span body block)
        (.label ⟨t.labels⟩ :: code ++ [.jump ⟨t.labels⟩, .label ⟨t.labels + 1⟩]) u

/-- **The code of a block.** -/
inductive BlockCode (env : Env) (depth : Nat) :
    Option LoopLabels → ScopeId → Supply → List Stmt → List Instruction → Supply → Prop
  | nil {loop : Option LoopLabels} {scope : ScopeId} {t : Supply} :
      BlockCode env depth loop scope t [] [] t
  | cons {loop : Option LoopLabels} {scope : ScopeId} {t u v : Supply} {stmt : Stmt}
      {rest : List Stmt} {code codes : List Instruction} :
      StmtCode env depth loop scope t stmt code u →
      BlockCode env depth loop scope u rest codes v →
      BlockCode env depth loop scope t (stmt :: rest) (code ++ codes) v

end

/-! ### Lowering statements -/

lemma does_lowerValue {env : Env} {scope : ScopeId} {e : Expr} {s s' : State} {x : Unit} :
    (lowerValue env scope e).Does s x s' ↔
      ∃ code u, ValueCode env scope s.callDepth s.supply e code u ∧ s' = s.grown code u := by
  simp only [lowerValue, does_bind, does_requireValue, lowerExpr_does_iff, ValueCode, exists_unit]
  constructor
  · rintro ⟨_, ⟨hv, rfl⟩, code, u, h, rfl⟩
    exact ⟨code, u, ⟨hv, h⟩, rfl⟩
  · rintro ⟨code, u, ⟨hv, h⟩, rfl⟩
    exact ⟨s, ⟨hv, rfl⟩, code, u, h, rfl⟩

lemma does_innermostLoop {stmt : LoopStmt} {span : Span} {s s' : State} {labels : LoopLabels} :
    (innermostLoop stmt span).Does s labels s' ↔
      s.loops.innermost? = some labels ∧ s' = s := by
  simp only [innermostLoop, does_bind, does_get]
  constructor
  · rintro ⟨_, r, ⟨rfl, rfl⟩, h⟩
    split at h
    · next hl => simpa [hl, eq_comm] using h
    · simp at h
  · rintro ⟨hl, rfl⟩
    exact ⟨s', s', ⟨rfl, rfl⟩, by simp [hl]⟩

/-- Assignments, printing and the rest are lowered to the shapes listed. -/
lemma does_assign {env : Env} {scope : ScopeId} {span : Span} {target value : Expr}
    {index : Option Expr} {op : AssignOp} {s s' : State} :
    (lowerAssign env scope target index op value).Does s () s' ↔
      ∃ code u, PlainCode env s.callDepth s.loops.innermost? scope s.supply
        (.assign span target index op value) code u ∧ s' = s.grown code u := by
  constructor
  · intro h
    rw [lowerAssign] at h
    cases hname : target.ident? with
    | none => simp [hname] at h
    | some name =>
        cases index with
        | none =>
            simp only [hname, does_bind, does_varSlot, does_lowerValue, does_emit, exists_unit] at h
            obtain ⟨_, _, ⟨hroom, rfl, rfl⟩, _, ⟨code, u, hvalue, rfl⟩, rfl⟩ := h
            exact ⟨_, u, .assign hroom hname hvalue, by simp⟩
        | some index =>
            cases helement : target.ty.element? with
            | none => simp [hname, helement, does_bind] at h
            | some element =>
                simp only [hname, helement, does_bind, does_varSlot, does_lowerValue, does_emit,
                  does_emitAll, does_expectTy, exists_unit] at h
                obtain ⟨_, _, ⟨hroom, rfl, rfl⟩, _, ⟨hty, rfl⟩, _, rfl, _,
                  ⟨first, u, hindex, rfl⟩, _, rfl, _, ⟨second, v, hvalue, rfl⟩, rfl⟩ := h
                exact ⟨_, v, .assignElement hroom hname helement hty hindex hvalue,
                  by simp [unboxing]⟩
  · rintro ⟨code, u, hcode, rfl⟩
    rw [lowerAssign]
    cases hcode with
    | assign hroom hname hvalue =>
        simp only [hname, does_bind, does_varSlot, does_lowerValue, does_emit, exists_unit]
        exact ⟨_, _, ⟨hroom, rfl, rfl⟩, _, ⟨_, _, hvalue, rfl⟩, by simp⟩
    | assignElement hroom hname helement hty hindex hvalue =>
        simp only [hname, helement, does_bind, does_varSlot, does_lowerValue, does_emit,
          does_emitAll, does_expectTy, exists_unit]
        exact ⟨_, _, ⟨hroom, rfl, rfl⟩, _, ⟨hty, rfl⟩, _, rfl, _, ⟨_, _, hindex, rfl⟩, _, rfl, _,
          ⟨_, _, hvalue, rfl⟩, by simp [unboxing]⟩

lemma does_put {env : Env} {scope : ScopeId} {span : Span} {value : Expr} {s s' : State} :
    (lowerPut env scope value).Does s () s' ↔
      ∃ code u, PlainCode env s.callDepth s.loops.innermost? scope s.supply (.put span value)
        code u ∧ s' = s.grown code u := by
  simp only [lowerPut, does_bind, does_emit, does_lowerValue, exists_unit]
  constructor
  · rintro ⟨_, rfl, _, ⟨code, u, hvalue, rfl⟩, h⟩
    cases hwhat : printed? value.ty with
    | none => simp [hwhat] at h
    | some what =>
        simp only [hwhat, does_bind, does_emitAll, does_emit, exists_unit] at h
        obtain ⟨_, rfl, _, rfl, rfl⟩ := h
        exact ⟨_, u, .put hvalue hwhat, by simp⟩
  · rintro ⟨code, u, hcode, rfl⟩
    cases hcode with
    | put hvalue hwhat =>
        refine ⟨_, rfl, _, ⟨_, _, hvalue, rfl⟩, ?_⟩
        simp only [hwhat, does_bind, does_emitAll, does_emit, exists_unit]
        exact ⟨_, rfl, _, rfl, by simp⟩

lemma does_eval {env : Env} {scope : ScopeId} {span : Span} {e : Expr} {s s' : State} :
    (lowerStmt env scope (.eval span e)).Does s () s' ↔
      ∃ code u, PlainCode env s.callDepth s.loops.innermost? scope s.supply (.eval span e) code u ∧
        s' = s.grown code u := by
  have dropped : ∀ r : State,
      (if producesValue env scope e then emit .pop else pure () : Emit Unit).Does r () s' ↔
        s' = r.grown (if producesValue env scope e then [.pop] else []) r.supply := by
    intro r
    split <;> simp
  simp only [lowerStmt, does_bind, lowerExpr_does_iff, exists_unit, dropped]
  constructor
  · rintro ⟨_, ⟨code, u, h, rfl⟩, rfl⟩
    exact ⟨_, u, .eval h, by simp⟩
  · rintro ⟨_, u, hcode, rfl⟩
    cases hcode with
    | eval h => exact ⟨_, ⟨_, _, h, rfl⟩, by simp⟩

/-- Whether a statement has no block of its own. -/
def isPlain : Stmt → Bool
  | .branch .. | .loop .. => false
  | _ => true

/-- Lowering a statement without a block succeeds exactly in the ways `PlainCode` lists. -/
lemma does_plain {env : Env} {scope : ScopeId} {stmt : Stmt} (hplain : isPlain stmt = true)
    {s s' : State} : (lowerStmt env scope stmt).Does s () s' ↔
      ∃ code u, PlainCode env s.callDepth s.loops.innermost? scope s.supply stmt code u ∧
        s' = s.grown code u := by
  cases stmt with
  | assign span target index op value =>
      rw [lowerStmt]
      exact does_assign
  | put span value =>
      rw [lowerStmt]
      exact does_put
  | eval span e => exact does_eval
  | exitLoop span =>
      simp only [lowerStmt, does_bind, does_innermostLoop, does_emit]
      constructor
      · rintro ⟨labels, _, ⟨hl, rfl⟩, rfl⟩
        exact ⟨_, _, .exitLoop hl, rfl⟩
      · rintro ⟨code, u, hcode, rfl⟩
        cases hcode with
        | exitLoop hl => exact ⟨_, _, ⟨hl, rfl⟩, rfl⟩
  | nextLoop span =>
      simp only [lowerStmt, does_bind, does_innermostLoop, does_emit]
      constructor
      · rintro ⟨labels, _, ⟨hl, rfl⟩, rfl⟩
        exact ⟨_, _, .nextLoop hl, rfl⟩
      · rintro ⟨code, u, hcode, rfl⟩
        cases hcode with
        | nextLoop hl => exact ⟨_, _, ⟨hl, rfl⟩, rfl⟩
  | ret span value =>
      cases value with
      | none =>
          simp only [lowerStmt, does_emit]
          constructor
          · rintro rfl
            exact ⟨_, _, .ret, rfl⟩
          · rintro ⟨code, u, hcode, rfl⟩
            cases hcode with
            | ret => rfl
      | some value =>
          simp only [lowerStmt, does_bind, does_lowerValue, does_emit, exists_unit]
          constructor
          · rintro ⟨_, ⟨code, u, hvalue, rfl⟩, rfl⟩
            exact ⟨_, u, .retValue hvalue, by simp⟩
          · rintro ⟨_, u, hcode, rfl⟩
            cases hcode with
            | retValue hvalue => exact ⟨_, ⟨_, _, hvalue, rfl⟩, by simp⟩
  | branch | loop => simp [isPlain] at hplain

lemma PlainCode.isPlain {env : Env} {depth : Nat} {loop : Option LoopLabels} {scope : ScopeId}
    {t u : Supply} {stmt : Stmt} {code : List Instruction}
    (h : PlainCode env depth loop scope t stmt code u) : isPlain stmt = true := by
  cases h <;> rfl

lemma does_branch {env : Env} {scope : ScopeId} {span : Span} {cond : Expr}
    {thenBody elseBody : List Stmt} {block : Option ScopeId} {s s' : State} :
    (lowerStmt env scope (.branch span cond thenBody elseBody block)).Does s () s' ↔
      cond.ty = .bool ∧ ∃ first u, ValueCode env scope s.callDepth s.supply cond first u ∧
        ∃ r, (lowerBlock env (env.symbols.enter scope block) thenBody).Does
            (s.grown (first ++ [.callVirtual .booleanValue, .ifZero ⟨u.labels⟩]) u.withLabels)
            () r ∧
        ∃ r', (lowerBlock env (env.symbols.enter scope block) elseBody).Does
            (r.grown ((if r.code.endsWithReturn then [] else [.jump ⟨u.labels + 1⟩]) ++
              [.label ⟨u.labels⟩]) r.supply) () r' ∧
          s' = r'.grown [.label ⟨u.labels + 1⟩] r'.supply := by
  have skipped : ∀ {r r' : State} {l : Label}, (jumpUnlessReturned l).Does r () r' ↔
      r' = r.grown (if r.code.endsWithReturn then [] else [.jump l]) r.supply := by
    intro r r' l
    simp only [jumpUnlessReturned, does_bind, does_get]
    constructor
    · rintro ⟨_, _, ⟨rfl, rfl⟩, h⟩
      split at h <;> simp_all
    · rintro rfl
      refine ⟨r, r, ⟨rfl, rfl⟩, ?_⟩
      split <;> simp_all
  by_cases hty : cond.ty = .bool
  · simp only [lowerStmt, hty, if_true, does_bind (x := lowerValue _ _ _), does_lowerValue,
      does_bind (x := emitAll _), does_emitAll, does_two_labels, does_bind (x := emit _), does_emit,
      does_bind (x := lowerBlock _ _ _), does_bind (x := jumpUnlessReturned _), skipped,
      exists_unit, true_and]
    constructor
    · rintro ⟨_, ⟨first, u, hcond, rfl⟩, _, rfl, _, rfl, r, h1, _, rfl, _, rfl, r', h2, rfl⟩
      refine ⟨first, u, hcond, r, ?_, r', ?_, rfl⟩
      · simpa [unboxing] using h1
      · simpa using h2
    · rintro ⟨first, u, hcond, r, h1, r', h2, rfl⟩
      refine ⟨_, ⟨first, u, hcond, rfl⟩, _, rfl, _, rfl, r, ?_, _, rfl, _, rfl, r', ?_, rfl⟩
      · simpa [unboxing] using h1
      · simpa using h2
  · simp [lowerStmt, hty, does_bind]

lemma does_loop {env : Env} {scope : ScopeId} {span : Span} {body : List Stmt}
    {block : Option ScopeId} {s s' : State} :
    (lowerStmt env scope (.loop span body block)).Does s () s' ↔
      ∃ r, (lowerBlock env (env.symbols.enter scope block) body).Does
          { s.grown [.label ⟨s.supply.labels⟩] s.supply.withLabels with
            loops := s.loops.push ⟨⟨s.supply.labels⟩, ⟨s.supply.labels + 1⟩⟩ } () r ∧
        s' = { r with loops := r.loops.pop.2 }.grown
          [.jump ⟨s.supply.labels⟩, .label ⟨s.supply.labels + 1⟩] r.supply := by
  simp only [lowerStmt, does_two_labels]
  simp only [does_bind, does_withLoop, does_emit, does_emitAll, exists_unit]
  constructor
  · rintro ⟨_, ⟨r, ⟨_, rfl, h⟩, rfl⟩, rfl⟩
    exact ⟨r, by simpa [State.grown, State.supply] using h, rfl⟩
  · rintro ⟨r, h, rfl⟩
    exact ⟨_, ⟨r, ⟨_, rfl, by simpa [State.grown, State.supply] using h⟩, rfl⟩, rfl⟩

/-- A loop is counted, and the loops around are as before. -/
lemma State.Grows.left {s r : State} {labels : LoopLabels} {code more : List Instruction}
    {t u : Supply}
    (h : { s.grown code t with loops := s.loops.push labels }.Grows more u r) :
    s.Grows (code ++ more) u { r with loops := r.loops.pop.2 } := by
  have loops : r.loops.loops = labels :: s.loops.loops := h.1
  have joined := State.grown_grown s code more t u
  refine ⟨by simp [LoopStack.pop, loops], ?_⟩
  rw [h.2, ← joined]
  rfl

/-- Whether to jump over the second branch is decided by the code of the first. -/
lemma skipCode_eq {s r : State} {first second : List Instruction} {t u : Supply} {n : Label}
    (h : (s.grown (first ++ [.callVirtual .booleanValue, .ifZero n]) t).Grows second u r)
    (l : Label) :
    (if r.code.endsWithReturn then [] else [.jump l]) = skipCode second l := by
  have regrouped : r.code = s.code ++ (first ++ [.callVirtual .booleanValue]) ++
      (.ifZero n :: second) := by
    rw [h.code]
    exact Array.toList_inj.1 (by simp)
  rw [regrouped, endsWithReturn_append _ rfl, skipCode]

mutual

/-- Lowering a statement, where it succeeds, emits code of the shape of the statement. -/
theorem stmtCode_of_does {env : Env} (stmt : Stmt) {scope : ScopeId} {s s' : State}
    (h : (lowerStmt env scope stmt).Does s () s') :
    ∃ code u, StmtCode env s.callDepth s.loops.innermost? scope s.supply stmt code u ∧
      s.Grows code u s' := by
  cases stmt with
  | branch span cond thenBody elseBody block =>
      obtain ⟨hty, first, u, hcond, r, h1, r', h2, rfl⟩ := does_branch.1 h
      obtain ⟨second, v, hthen, g1⟩ := blockCode_of_does thenBody h1
      obtain ⟨third, w, helse, g2⟩ := blockCode_of_does elseBody h2
      have hskip := skipCode_eq g1 ⟨u.labels + 1⟩
      have whole := (((s.grows_grown _ _).trans g1).grown _ _ |>.trans g2).grown
        [.label ⟨u.labels + 1⟩] r'.supply
      rw [g2.supply, hskip] at whole
      have helse' : BlockCode env s.callDepth s.loops.innermost? (env.symbols.enter scope block) v
          elseBody third w := by
        simpa [g1.callDepth, g1.innermost, g1.supply] using helse
      refine ⟨_, w, .branch hty hcond hthen helse', ?_⟩
      simpa [g2.supply] using whole
  | loop span body block =>
      obtain ⟨r, h1, rfl⟩ := does_loop.1 h
      obtain ⟨code, u, hbody, g⟩ := blockCode_of_does body h1
      have whole := g.left.grown [.jump ⟨s.supply.labels⟩, .label ⟨s.supply.labels + 1⟩] r.supply
      refine ⟨_, u, .loop hbody, ?_⟩
      simpa [g.supply] using whole
  | assign | exitLoop | nextLoop | ret | put | eval =>
      obtain ⟨code, u, hcode, rfl⟩ := (does_plain rfl).1 h
      exact ⟨code, u, .plain hcode, s.grows_grown code u⟩

/-- So does lowering a block. -/
theorem blockCode_of_does {env : Env} (block : List Stmt) {scope : ScopeId} {s s' : State}
    (h : (lowerBlock env scope block).Does s () s') :
    ∃ code u, BlockCode env s.callDepth s.loops.innermost? scope s.supply block code u ∧
      s.Grows code u s' := by
  cases block with
  | nil =>
      simp only [lowerBlock, does_pure] at h
      obtain ⟨-, rfl⟩ := h
      exact ⟨[], _, .nil, by simpa using s'.grows_grown [] s'.supply⟩
  | cons stmt rest =>
      simp only [lowerBlock, does_bind, exists_unit] at h
      obtain ⟨r, h1, h2⟩ := h
      obtain ⟨code, u, hstmt, g1⟩ := stmtCode_of_does stmt h1
      obtain ⟨codes, v, hrest, g2⟩ := blockCode_of_does rest h2
      rw [g1.callDepth, g1.innermost, g1.supply] at hrest
      exact ⟨_, v, .cons hstmt hrest, g1.trans g2⟩

end

mutual

/-- Code of the shape of a statement is what lowering the statement emits. -/
theorem StmtCode.does {env : Env} {depth : Nat} {loop : Option LoopLabels} {scope : ScopeId}
    {t u : Supply} {stmt : Stmt} {code : List Instruction}
    (h : StmtCode env depth loop scope t stmt code u) (s : State) (hdepth : s.callDepth = depth)
    (hloop : s.loops.innermost? = loop) (ht : s.supply = t) :
    ∃ s', (lowerStmt env scope stmt).Does s () s' ∧ s.Grows code u s' := by
  match h with
  | .plain hcode =>
      subst hdepth hloop ht
      exact ⟨_, (does_plain hcode.isPlain).2 ⟨_, _, hcode, rfl⟩, s.grows_grown _ _⟩
  | @StmtCode.branch _ _ _ _ _ u v w _ _ _ _ _ first second third hty hcond hthen helse =>
      obtain ⟨r, h1, g1⟩ := hthen.does (s.grown
        (first ++ [.callVirtual .booleanValue, .ifZero ⟨u.labels⟩]) u.withLabels) hdepth hloop rfl
      obtain ⟨r', h2, g2⟩ := helse.does
        (r.grown (skipCode second ⟨u.labels + 1⟩ ++ [.label ⟨u.labels⟩]) r.supply)
        (g1.callDepth.trans hdepth) (g1.innermost.trans hloop) g1.supply
      subst hdepth hloop ht
      have hskip := skipCode_eq g1 ⟨u.labels + 1⟩
      have whole := (((s.grows_grown _ _).trans g1).grown _ _ |>.trans g2).grown
        [.label ⟨u.labels + 1⟩] r'.supply
      refine ⟨_, does_branch.2 ⟨hty, first, u, hcond, r, h1, r', ?_, rfl⟩, ?_⟩
      · rwa [hskip]
      · simpa [g2.supply] using whole
  | @StmtCode.loop _ _ _ _ _ _ _ _ block code hbody =>
      obtain ⟨r, h1, g⟩ := hbody.does
        { s.grown [.label ⟨t.labels⟩] t.withLabels with
          loops := s.loops.push ⟨⟨t.labels⟩, ⟨t.labels + 1⟩⟩ } hdepth rfl rfl
      subst hdepth hloop ht
      have whole := g.left.grown [.jump ⟨s.supply.labels⟩, .label ⟨s.supply.labels + 1⟩] r.supply
      exact ⟨_, does_loop.2 ⟨r, h1, rfl⟩, by simpa [g.supply] using whole⟩

theorem BlockCode.does {env : Env} {depth : Nat} {loop : Option LoopLabels} {scope : ScopeId}
    {t u : Supply} {block : List Stmt} {code : List Instruction}
    (h : BlockCode env depth loop scope t block code u) (s : State) (hdepth : s.callDepth = depth)
    (hloop : s.loops.innermost? = loop) (ht : s.supply = t) :
    ∃ s', (lowerBlock env scope block).Does s () s' ∧ s.Grows code u s' := by
  match h with
  | .nil =>
      subst ht
      exact ⟨s, by simp [lowerBlock], by simpa using s.grows_grown [] s.supply⟩
  | .cons hstmt hrest =>
      obtain ⟨r, h1, g1⟩ := hstmt.does s hdepth hloop ht
      obtain ⟨s', h2, g2⟩ := hrest.does r (g1.callDepth.trans hdepth) (g1.innermost.trans hloop)
        g1.supply
      refine ⟨s', ?_, g1.trans g2⟩
      simp only [lowerBlock, does_bind, exists_unit]
      exact ⟨r, h1, h2⟩

end

end StackBackend.Lowering
