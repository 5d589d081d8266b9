import StackBackend.Lowering.ClassUnit
import StackBackend.Proofs.Lowering.Actions
import StackBackend.Proofs.Lowering.Demand

/-!
# Properties of every lowering action

Lowering is made of a few primitive actions, put one after another, inside a loop or inside a call.
What holds of the primitives and is kept by these three holds of lowering as a whole, whether it
succeeds or fails.  `Emit.Law P` collects what has to be shown of a property `P` of actions, and the
induction over expressions and statements is made once, for all properties.  A property may speak of
what an action needs slots for; of the parts of a body, this is what the body says it is.  The state
is read in three places: for the number of open calls, for the innermost loop, and for whether a
branch has returned.  What is read there is not a result to go on with, so a law need not hold of
reading as such.

* `Law.lowerExpr`, `Law.lowerElements` — expressions;
* `Law.lowerStmt`, `Law.lowerBlock` — statements and blocks.

One law is shown here: lowering a tree fails by refusing one of the nodes or by running out of slots
(`law_refuses`).  The other errors are about names, and a program whose names are all there gives
none of them (`CheckedProgram.Resolved.atNode_of_assemble`).
-/

namespace StackBackend

/-- The error comes up at a node of the tree, and is not about a name that is missing. -/
def LoweringError.AtNode : LoweringError → Prop
  | shape _ _ | outOfSlots => True
  | unresolved _ _ => False

namespace Lowering

open Emit

/-- **A property of actions that lowering cannot lose**: it holds of the primitives and is kept by
sequencing, loops and calls.  It may depend on what an action needs slots for. -/
structure Emit.Law (P : (α : Type) → Need → Emit α → Prop) : Prop where
  pure : ∀ {α : Type} (a : α), P α ∅ (pure a)
  bind : ∀ {α β : Type} {n n' : Need} {x : Emit α} {f : α → Emit β}, P α n x →
    (∀ a, P β n' (f a)) → P β (n ++ n') (x >>= f)
  refuse : ∀ {α : Type} (n : Need) (fault : ShapeFault) (span : Span), P α n (refuse fault span)
  argsSlot : ∀ {α : Type} {n : Need} {f : Nat → Emit α} (name : String), (∀ slot, P α n (f slot)) →
    P α (.call name ++ n) (get >>= fun s => slotOf (.callArgs name s.callDepth) >>= f)
  innermostLoop : ∀ stmt span, P LoopLabels ∅ (innermostLoop stmt span)
  jumpUnlessReturned : ∀ {n : Need} {x : Emit Unit} (i : Instruction) (target : Label),
    P Unit n x → P Unit n (emit i >>= fun _ => x >>= fun _ => jumpUnlessReturned target)
  emit : ∀ i, P Unit ∅ (emit i)
  emitAll : ∀ is, P Unit ∅ (emitAll is)
  freshLabel : P Label ∅ freshLabel
  varSlot : ∀ name, P Nat (.var name) (varSlot name)
  listLiteralSlot : P Nat .literal listLiteralSlot
  withLoop : ∀ {n : Need} {x : Emit Unit} (labels : LoopLabels), P Unit n x →
    P Unit n (withLoop labels x)
  inCall : ∀ {n : Need} {x : Emit Unit}, P Unit n x → P Unit n.inside (inCall x)

namespace Emit.Law

variable {P : (α : Type) → Need → Emit α → Prop} (h : Law P) (env : Env) (scope : ScopeId)

include h

/-! ## Pieces of lowering -/

section Sequences

variable {α β : Type} {n n' : Need} {x : Emit Unit} {y : Emit α}

/-- One action after another that gives nothing to go on with. -/
lemma seq (hx : P Unit n x) (hy : P α n' y) : P α (n ++ n') (x >>= fun _ => y) :=
  h.bind hx fun _ => hy

/-- The first action needs no slots. -/
lemma after {x : Emit β} {f : β → Emit α} (hx : P β ∅ x) (hf : ∀ b, P α n (f b)) :
    P α n (x >>= f) := by
  have joined := h.bind hx hf
  rwa [Need.empty_append] at joined

lemma skip (hx : P Unit ∅ x) (hy : P α n y) : P α n (x >>= fun _ => y) :=
  h.after hx fun _ => hy

/-- The second action needs no slots. -/
lemma last {x : Emit β} {f : β → Emit α} (hx : P β n x) (hf : ∀ b, P α ∅ (f b)) :
    P α n (x >>= f) := by
  have joined := h.bind hx hf
  rwa [Need.append_empty] at joined

end Sequences

lemma requireValue (e : Expr) : P Unit ∅ (requireValue env scope e) := by
  rw [Lowering.requireValue]
  split
  · exact h.pure ()
  · exact h.refuse _ _ _

lemma expectTy (e : Expr) (ty : Ty) (role : OperandRole) : P Unit ∅ (expectTy e ty role) := by
  rw [Lowering.expectTy]
  split
  · exact h.pure ()
  · exact h.refuse _ _ _

lemma loadVariable (name : String) (ty : Ty) : P Unit (.var name) (loadVariable name ty) :=
  h.last (h.varSlot name) fun _ => h.emitAll _

lemma lowerIdent (name : String) (ty : Ty) :
    P Unit (.name env.symbols scope name) (lowerIdent env scope name ty) := by
  rw [Lowering.lowerIdent, Need.name]
  cases env.symbols.lookup scope name with
  | none => exact h.loadVariable _ _
  | some binding =>
      cases binding with
      | fn _ => exact h.emitAll _
      | var _ => exact h.loadVariable _ _

lemma lowerCallee (name : String) :
    P Unit (.name env.symbols scope name) (lowerCallee env scope name) := by
  rw [Lowering.lowerCallee, Need.name]
  cases env.symbols.lookup scope name with
  | none => exact h.last (h.varSlot name) fun _ => h.emitAll _
  | some binding =>
      cases binding with
      | fn _ => exact h.emitAll _
      | var _ => exact h.last (h.varSlot name) fun _ => h.emitAll _

lemma finishCall (slot : Nat) (ret : Ty) : P Unit ∅ (finishCall slot ret) := by
  refine h.skip (h.emitAll _) ?_
  split
  · exact h.emit _
  · exact h.emitAll _

lemma truthOf (branch : Label → Instruction) : P Unit ∅ (truthOf branch) :=
  h.after h.freshLabel fun _ => h.after h.freshLabel fun _ => h.emitAll _

/-- A value is lowered, and something follows. -/
lemma value {α : Type} {n n' : Need} {e : Expr} {rest : Emit α}
    (he : P Unit n (lowerExpr env scope e)) (hrest : P α n' rest) :
    P α (n ++ n')
      (Lowering.requireValue env scope e >>= fun _ => lowerExpr env scope e >>= fun _ => rest) :=
  h.skip (h.requireValue env scope e) (h.seq he hrest)

/-- What follows needs no slots. -/
lemma lastValue {α : Type} {n : Need} {e : Expr} {rest : Emit α}
    (he : P Unit n (lowerExpr env scope e)) (hrest : P α ∅ rest) :
    P α n
      (Lowering.requireValue env scope e >>= fun _ => lowerExpr env scope e >>= fun _ => rest) :=
  h.skip (h.requireValue env scope e) (h.last he fun _ => hrest)

/-! ## Expressions -/

mutual

/-- **A law holds of lowering an expression.** -/
theorem lowerExpr (e : Expr) :
    P Unit (e.need env.symbols scope) (lowerExpr env scope e) := by
  match e with
  | .int _ _ | .bool _ _ | .fnPtr _ _ =>
      rw [Lowering.lowerExpr, Expr.need]
      exact h.emitAll _
  | .str _ _ =>
      rw [Lowering.lowerExpr, Expr.need]
      exact h.emit _
  | .ident _ _ =>
      rw [Lowering.lowerExpr, Expr.need]
      exact h.lowerIdent env scope _ _
  | .list _ elements =>
      rw [Lowering.lowerExpr, Expr.need]
      exact h.bind h.listLiteralSlot fun _ =>
        h.skip (h.emitAll _) (h.last (lowerElements _ elements) fun _ => h.emitAll _)
  | .call _ callee args =>
      rw [Lowering.lowerExpr, Expr.need]
      cases callee.ident? with
      | none => exact h.refuse _ _ _
      | some name =>
          exact h.seq (h.lowerCallee env scope name) (h.argsSlot name fun _ =>
            h.last (h.inCall (h.skip (h.emitAll _) (lowerElements _ args))) fun _ =>
              h.finishCall _ _)
  | .index _ base [] | .index _ base (_ :: _ :: _) =>
      rw [Lowering.lowerExpr]
      · exact h.refuse _ _ _
      · simp
  | .index _ base [index] =>
      rw [Lowering.lowerExpr, Expr.need]
      split
      · exact h.refuse _ _ _
      · refine h.skip (h.expectTy _ _ _) (h.value env scope (lowerExpr base)
          (h.lastValue env scope (lowerExpr index) (h.skip (h.emitAll _) (h.skip (h.emit _) ?_))))
        split
        · exact h.pure ()
        · exact h.emitAll _
  | .binary _ op lhs rhs =>
      rw [Lowering.lowerExpr, Expr.need]
      split
      · exact h.skip (h.expectTy _ _ _) (h.skip (h.expectTy _ _ _)
          (h.value env scope (lowerExpr lhs) (h.skip (h.emitAll _)
            (h.lastValue env scope (lowerExpr rhs)
              (h.skip (h.emitAll _) (h.skip (h.emit _) (h.emitAll _)))))))
      · split
        · exact h.refuse _ _ _
        · exact h.value env scope (lowerExpr lhs) (h.skip (h.emitAll _)
            (h.lastValue env scope (lowerExpr rhs) (h.skip (h.emitAll _) (h.truthOf _))))
        · exact h.value env scope (lowerExpr lhs) (h.lastValue env scope (lowerExpr rhs)
            (h.skip (h.emit _) (h.truthOf _)))
        · exact h.value env scope (lowerExpr lhs)
            (h.lastValue env scope (lowerExpr rhs) (h.truthOf _))
  | .unary _ .neg operand =>
      rw [Lowering.lowerExpr, Expr.need]
      exact h.skip (h.expectTy _ _ _) (h.lastValue env scope (lowerExpr operand)
        (h.skip (h.emitAll _) (h.skip (h.emit _) (h.emitAll _))))
  | .unary _ .not operand =>
      rw [Lowering.lowerExpr, Expr.need]
      exact h.skip (h.expectTy _ _ _) (h.lastValue env scope (lowerExpr operand)
        (h.skip (h.emitAll _) (h.skip (h.emitAll _) (h.emitAll _))))
  | .unary _ .inc operand | .unary _ .dec operand =>
      rw [Lowering.lowerExpr, Expr.need]
      · cases operand.ident? with
        | none => exact h.refuse _ _ _
        | some name =>
            exact h.skip (h.expectTy _ _ _) (h.value env scope (lowerExpr operand)
              (h.skip (h.emitAll _) (h.skip (h.emitAll _) (h.skip (h.emitAll _) (h.skip (h.emit _)
                (h.last (h.varSlot name) fun _ => h.emit _))))))
      all_goals simp
  | .len _ operand =>
      rw [Lowering.lowerExpr, Expr.need]
      refine h.lastValue env scope (lowerExpr operand) ?_
      dsimp only
      split
      · exact h.skip (h.emit _) (h.emitAll _)
      · exact h.skip (h.emit _) (h.emitAll _)
      · exact h.skip (h.refuse _ _ _) (h.emitAll _)
  | .chop _ operand =>
      rw [Lowering.lowerExpr, Expr.need]
      exact h.skip (h.expectTy _ _ _) (h.lastValue env scope (lowerExpr operand) (h.emitAll _))

theorem lowerElements (slot : Nat) (es : List Expr) :
    P Unit (Expr.needIn env.symbols scope es) (lowerElements env scope slot es) := by
  match es with
  | [] =>
      rw [Lowering.lowerElements, Expr.needIn]
      exact h.pure ()
  | e :: rest =>
      rw [Lowering.lowerElements, Expr.needIn]
      have hrest := h.skip (h.emitAll [.callVirtual .arrayAdd, .pop]) (lowerElements slot rest)
      refine h.skip (h.emit _) ?_
      dsimp only
      split
      · exact h.skip (h.emitAll _) (h.value env scope (lowerExpr e) (h.skip (h.emit _) hrest))
      · exact h.value env scope (lowerExpr e) hrest

end

lemma lowerValue (e : Expr) : P Unit (e.need env.symbols scope) (lowerValue env scope e) :=
  h.skip (h.requireValue env scope e) (h.lowerExpr env scope e)

/-! ## Statements -/

lemma lowerAssign (target : Expr) (index : Option Expr) (op : AssignOp) (value : Expr) :
    P Unit (Stmt.assignNeed env.symbols scope target index op value)
      (lowerAssign env scope target index op value) := by
  rw [Lowering.lowerAssign, Stmt.assignNeed.eq_def]
  cases target.ident? with
  | none => exact h.refuse _ _ _
  | some name =>
      refine h.bind (h.varSlot name) fun _ => ?_
      cases index with
      | none => exact h.last (h.lowerValue env scope _) fun _ => h.emit _
      | some index =>
          cases target.ty.element? with
          | none => exact h.refuse _ _ _
          | some element =>
              exact h.skip (h.expectTy _ _ _) (h.skip (h.emitAll _)
                (h.seq (h.lowerValue env scope _) (h.skip (h.emitAll _)
                  (h.last (h.lowerValue env scope _) fun _ => h.emit _))))

lemma lowerPut (value : Expr) :
    P Unit (value.need env.symbols scope) (lowerPut env scope value) := by
  refine h.skip (h.emit _) (h.last (h.lowerValue env scope value) fun _ => ?_)
  split
  · exact h.refuse _ _ _
  · exact h.skip (h.emitAll _) (h.skip (h.emitAll _) (h.emit _))

/-- A branch that begins with some instruction is left by a jump, unless it returned. -/
lemma branch {α : Type} {n n' : Need} {x : Emit Unit} {rest : Emit α} (i : Instruction)
    (target : Label) (hx : P Unit n x) (hrest : P α n' rest) :
    P α (n ++ n') (Emit.emit i >>= fun _ => x >>= fun _ =>
      Lowering.jumpUnlessReturned target >>= fun _ => rest) := by
  have joined := h.seq (h.jumpUnlessReturned i target hx) hrest
  simpa only [bind_assoc] using joined

mutual

/-- **A law holds of lowering a statement.** -/
theorem lowerStmt (scope : ScopeId) (stmt : Stmt) :
    P Unit (stmt.need env.symbols scope) (lowerStmt env scope stmt) := by
  match stmt with
  | .assign _ target index op value =>
      rw [Lowering.lowerStmt, Stmt.need]
      exact h.lowerAssign env scope target index op value
  | .branch _ cond thenBody elseBody block =>
      rw [Lowering.lowerStmt, Stmt.need]
      have hrest := h.seq (h.lowerValue env scope cond) (h.skip (h.emitAll (unboxing .bool))
        (h.after h.freshLabel fun otherwise => h.after h.freshLabel fun exit =>
          h.branch (.ifZero otherwise) exit (lowerBlock (env.symbols.enter scope block) thenBody)
            (h.skip (h.emit (.label otherwise))
              (h.last (lowerBlock (env.symbols.enter scope block) elseBody) fun _ =>
                h.emit (.label exit)))))
      split
      · exact hrest
      · exact h.skip (h.refuse _ _ _) hrest
  | .loop _ body block =>
      rw [Lowering.lowerStmt, Stmt.need]
      exact h.after h.freshLabel fun _ => h.after h.freshLabel fun _ =>
        h.last (h.withLoop _ (h.skip (h.emit _) (lowerBlock _ body))) fun _ => h.emitAll _
  | .exitLoop span | .nextLoop span =>
      rw [Lowering.lowerStmt, Stmt.need]
      exact h.after (h.innermostLoop _ _) fun _ => h.emit _
  | .ret _ none =>
      rw [Lowering.lowerStmt, Stmt.need]
      exact h.emit _
  | .ret _ (some value) =>
      rw [Lowering.lowerStmt, Stmt.need]
      exact h.last (h.lowerValue env scope value) fun _ => h.emit _
  | .put _ value =>
      rw [Lowering.lowerStmt, Stmt.need]
      exact h.lowerPut env scope value
  | .eval _ e =>
      rw [Lowering.lowerStmt, Stmt.need]
      refine h.last (h.lowerExpr env scope e) fun _ => ?_
      split
      · exact h.emit _
      · exact h.pure ()

theorem lowerBlock (scope : ScopeId) (block : List Stmt) :
    P Unit (Stmt.needIn env.symbols scope block) (lowerBlock env scope block) := by
  match block with
  | [] =>
      rw [Lowering.lowerBlock, Stmt.needIn]
      exact h.pure ()
  | stmt :: rest =>
      rw [Lowering.lowerBlock, Stmt.needIn]
      exact h.seq (lowerStmt scope stmt) (lowerBlock scope rest)

end

end Emit.Law

/-! ## How lowering fails -/

/-- **An action fails at a node**, if it fails. -/
def Emit.Refuses (α : Type) (x : Emit α) : Prop :=
  ∀ s e, (x.ending s).1 = .error e → e.AtNode

lemma Emit.Refuses.bind {α β : Type} {x : Emit α} {f : α → Emit β} (hx : Refuses α x)
    (hf : ∀ a, Refuses β (f a)) : Refuses β (x >>= f) := by
  intro s e he
  rw [ending_bind] at he
  cases hend : x.ending s with
  | mk result r =>
      cases result with
      | error e' =>
          simp only [hend] at he
          obtain rfl : e' = e := by simpa using he
          exact hx s e' (by rw [hend])
      | ok a =>
          simp only [hend] at he
          exact hf a r e he

/-- An action that always succeeds refuses nothing. -/
lemma Emit.refuses_of_ok {α : Type} {x : Emit α} (hx : ∀ s, ∃ a, (x.ending s).1 = .ok a) :
    Refuses α x := by
  intro s e he
  obtain ⟨a, ha⟩ := hx s
  rw [ha] at he
  cases he

lemma Emit.refuses_refuse {α : Type} (fault : ShapeFault) (span : Span) :
    Refuses α (refuse fault span) := by
  intro s e he
  change (Except.error (.shape fault span) : Except LoweringError _) = .error e at he
  obtain rfl := by simpa using he
  trivial

lemma Emit.refuses_slotOf (key : SlotKey) : Refuses Nat (slotOf key) := by
  intro s e he
  rw [ending_slotOf] at he
  split at he
  · simp at he
  · obtain rfl := by simpa using he
    trivial

/-- **Whatever lowers a tree fails at a node**, if it fails. -/
lemma law_refuses : Emit.Law fun α _ x => Emit.Refuses α x where
  pure a := refuses_of_ok fun _ => ⟨a, rfl⟩
  bind := Refuses.bind
  refuse _ := refuses_refuse
  argsSlot name hf := (refuses_of_ok fun s => ⟨s, rfl⟩).bind fun _ => (refuses_slotOf _).bind hf
  innermostLoop stmt span := by
    refine (refuses_of_ok fun s => ⟨s, rfl⟩).bind fun s => ?_
    split
    · exact refuses_of_ok fun _ => ⟨_, rfl⟩
    · exact refuses_refuse _ _
  jumpUnlessReturned i target hx := by
    refine (refuses_of_ok fun _ => ⟨(), rfl⟩).bind fun _ => hx.bind fun _ => ?_
    refine refuses_of_ok fun s => ⟨(), ?_⟩
    change (Emit.ending (if s.code.endsWithReturn then Pure.pure () else emit (.jump target)) s).1 =
      _
    split <;> rfl
  emit i := refuses_of_ok fun _ => ⟨(), rfl⟩
  emitAll is := refuses_of_ok fun _ => ⟨(), rfl⟩
  freshLabel := refuses_of_ok fun _ => ⟨_, rfl⟩
  varSlot _ := refuses_slotOf _
  listLiteralSlot s e he := refuses_slotOf _ { s with listLiterals := s.listLiterals + 1 } e he
  withLoop _ hx s := hx _
  inCall hx s := hx _

variable {config : Config} {p : CheckedProgram} {shared : Shared} {e : LoweringError}

/-- Of two steps one after the other, the first fails or the second does. -/
lemma error_of_bind {α β : Type} {x : Except LoweringError α} {f : α → Except LoweringError β}
    (h : x >>= f = .error e) : x = .error e ∨ ∃ a, x = .ok a ∧ f a = .error e := by
  cases x with
  | error other =>
      change Except.error other = .error e at h
      exact .inl (by simpa using h)
  | ok a => exact .inr ⟨a, rfl, h⟩

lemma atNode_of_lowerBody {symbols : SymbolTable} {slots : Slots} {body : List Stmt}
    {scope : ScopeId} {ret : Ty}
    (he : lowerBody symbols shared slots body scope ret = .error e) : e.AtNode := by
  have refuses := law_refuses.lowerBlock ⟨symbols, shared.returns⟩ scope body
  rw [lowerBody] at he
  split at he
  · next other s hrun =>
      obtain rfl : other = e := by simpa using he
      exact refuses { labels := shared.labels, slots } other (by rw [ending, hrun])
  · simp at he

lemma atNode_of_paramSlots {slots : Slots} {params : List Param}
    (he : paramSlots slots params = .error e) : e.AtNode := by
  induction params generalizing slots with
  | nil => simp [paramSlots] at he
  | cons param rest ih =>
      rw [paramSlots] at he
      split at he
      · exact ih he
      · obtain rfl := by simpa using he
        trivial

lemma atNode_of_lowerEntry (he : lowerEntry config p shared = .error e) : e.AtNode := by
  rw [lowerEntry] at he
  rcases error_of_bind he with hbody | ⟨_, -, hrest⟩
  · exact atNode_of_lowerBody hbody
  · simp at hrest

end Lowering

/-! ## Programs whose names are all there -/

open Lowering

/-- **Every name that lowering looks up is there**: the functions to emit are bound and declared,
and their scopes are in the table. -/
structure CheckedProgram.Resolved (p : CheckedProgram) : Prop where
  valid : p.symbols.validate = .ok ()
  function : ∀ name ∈ p.reachable, ∃ binding decl,
    p.symbols.functionBinding? .global name = some binding ∧
      p.program.function? name = some decl ∧ p.symbols.has binding.scope = true

namespace CheckedProgram.Resolved

variable {config : Config} {p : CheckedProgram} {shared : Shared} {e : LoweringError}

lemma atNode_of_lowerFunction (h : p.Resolved) {name : String} (hname : name ∈ p.reachable)
    (he : lowerFunction config p shared name = .error e) : e.AtNode := by
  obtain ⟨binding, decl, hbinding, hdecl, hscope⟩ := h.function name hname
  rw [lowerFunction, hbinding, hdecl] at he
  simp only [hscope, if_true] at he
  rcases error_of_bind he with hparams | ⟨_, -, he⟩
  · exact atNode_of_paramSlots hparams
  · rcases error_of_bind he with hbody | ⟨_, -, hrest⟩
    · exact atNode_of_lowerBody hbody
    · simp at hrest

lemma atNode_of_lowerFunctions (h : p.Resolved) {names : List String}
    (hnames : ∀ name ∈ names, name ∈ p.reachable)
    (he : lowerFunctions config p shared names = .error e) : e.AtNode := by
  induction names generalizing shared with
  | nil => simp [lowerFunctions] at he
  | cons name rest ih =>
      rw [lowerFunctions] at he
      rcases error_of_bind he with hfirst | ⟨_, -, hlater⟩
      · exact h.atNode_of_lowerFunction (hnames name List.mem_cons_self) hfirst
      · rcases error_of_bind hlater with hrest | ⟨_, -, hdone⟩
        · exact ih (fun other hother => hnames other (List.mem_cons_of_mem _ hother)) hrest
        · simp at hdone

/-- **A program whose names are all there fails at a node of its trees**, if it fails. -/
lemma atNode_of_assemble (h : p.Resolved) (he : assemble p config = .error e) : e.AtNode := by
  rw [assemble, h.valid] at he
  rcases error_of_bind he with hfunctions | ⟨_, -, hlater⟩
  · exact h.atNode_of_lowerFunctions (fun _ hname => hname) hfunctions
  · rcases error_of_bind hlater with hentry | ⟨_, -, hdone⟩
    · exact atNode_of_lowerEntry hentry
    · simp at hdone

end CheckedProgram.Resolved

end StackBackend
