import StackBackend.Proofs.Lowering.SlotLimit
import StackBackend.Proofs.Typing.Rules

/-!
# Lowering accepts what the rules accept

Lowering refuses a tree whose types do not fit together, a value where there is none, a jump out of
a loop that is not there.  A well-typed tree gives it no reason to.  What is left is that slot
numbers have sixteen bits: a body that asks for more is not lowered, however well typed it is.

**Actions.**  `Emit.Settles inLoop x` says that an action succeeds or runs out of slots, from every
state with a loop around it if `inLoop` asks for one.  Sequencing keeps this (`Settles.bind`), since
whatever settles leaves the loops around it as they were.

**Main results.**

* `Agrees.settles_lowerExpr`, `Agrees.settles_lowerBlock` — lowering what is well typed settles;
* `Settles.does_or_runsOut` — an action that settles succeeds, or every slot number is taken, and
  needed, when it fails.
-/

namespace StackBackend

namespace Lowering.Emit

/-! ## Actions that settle -/

variable {α β : Type} {inLoop : Bool}

/-- **An action fails for want of slots only**, with loops around it if it is to be inside one. -/
structure Settles (inLoop : Bool) (x : Emit α) : Prop where
  loops : ∀ s, (x.ending s).2.loops.loops = s.loops.loops
  fails : ∀ s e, (inLoop = true → s.loops.loops ≠ []) → (x.ending s).1 = .error e → e = .outOfSlots

lemma Settles.bind {x : Emit α} {f : α → Emit β} (hx : x.Settles inLoop)
    (hf : ∀ a, (f a).Settles inLoop) : (x >>= f).Settles inLoop := by
  constructor
  · intro s
    have kept := hx.loops s
    rw [ending_bind]
    cases hend : x.ending s with
    | mk result r =>
        rw [hend] at kept
        cases result with
        | error e => exact kept
        | ok a => exact ((hf a).loops r).trans kept
  · intro s e hs he
    have kept := hx.loops s
    rw [ending_bind] at he
    cases hend : x.ending s with
    | mk result r =>
        simp only [hend] at he kept
        cases result with
        | error e' => exact hx.fails s e hs (by simpa [hend] using he)
        | ok a => exact (hf a).fails r e (fun hloop => kept ▸ hs hloop) he

lemma Settles.seq {x : Emit Unit} {y : Emit α} (hx : x.Settles inLoop) (hy : y.Settles inLoop) :
    (x >>= fun _ => y).Settles inLoop :=
  hx.bind fun _ => hy

/-- An action that always succeeds settles, if it enters and leaves no loop. -/
lemma settles_of_ok {x : Emit α}
    (hx : ∀ s, ∃ a r, x.ending s = (.ok a, r) ∧ r.loops = s.loops) : x.Settles inLoop := by
  constructor
  · intro s
    obtain ⟨a, r, hend, hr⟩ := hx s
    rw [hend, hr]
  · intro s e _ he
    obtain ⟨a, r, hend, -⟩ := hx s
    simp [hend] at he

lemma settles_pure (a : α) : (pure a : Emit α).Settles inLoop :=
  settles_of_ok fun s => ⟨a, s, rfl, rfl⟩

lemma settles_emit (i : Instruction) : (emit i).Settles inLoop :=
  settles_of_ok fun _ => ⟨(), _, rfl, rfl⟩

lemma settles_emitAll (is : List Instruction) : (emitAll is).Settles inLoop :=
  settles_of_ok fun _ => ⟨(), _, rfl, rfl⟩

lemma settles_freshLabel : freshLabel.Settles inLoop :=
  settles_of_ok fun _ => ⟨_, _, rfl, rfl⟩

lemma settles_read {f : State → Emit α} (hf : ∀ s, (f s).Settles inLoop) :
    (get >>= f).Settles inLoop :=
  (settles_of_ok fun s => ⟨s, s, rfl, rfl⟩).bind hf

lemma settles_slotOf (key : SlotKey) : (slotOf key).Settles inLoop := by
  constructor
  · intro s
    rw [ending_slotOf]
    split <;> rfl
  · intro s e _ he
    rw [ending_slotOf] at he
    split at he
    · simp at he
    · simpa [eq_comm] using he

lemma settles_listLiteralSlot : listLiteralSlot.Settles inLoop := by
  have settled : ∀ number, (slotOf (.listLiteral number)).Settles inLoop :=
    fun number => settles_slotOf _
  exact ⟨fun s => (settled s.listLiterals).loops { s with listLiterals := s.listLiterals + 1 },
    fun s => (settled s.listLiterals).fails { s with listLiterals := s.listLiterals + 1 }⟩

lemma settles_inCall {x : Emit Unit} (hx : x.Settles inLoop) : (inCall x).Settles inLoop :=
  ⟨fun s => hx.loops s.deeper, fun s => hx.fails s.deeper⟩

/-- Inside a loop there is a loop around. -/
lemma settles_withLoop {x : Emit Unit} (labels : LoopLabels) (hx : x.Settles true) :
    (withLoop labels x).Settles inLoop := by
  constructor
  · intro s
    have inside : (x.ending { s with loops := s.loops.push labels }).2.loops.loops
        = labels :: s.loops.loops := hx.loops _
    rw [ending_withLoop]
    simp only [LoopStack.pop, inside]
  · intro s e _ he
    exact hx.fails { s with loops := s.loops.push labels } e
      (fun _ => List.cons_ne_nil labels s.loops.loops) he

lemma settles_innermostLoop (stmt : LoopStmt) (span : Span) :
    (innermostLoop stmt span).Settles true := by
  have read : ∀ s : State, (get : Emit State).ending s = (.ok s, s) := fun _ => rfl
  constructor
  · intro s
    rw [innermostLoop, ending_bind, read]
    dsimp only
    cases s.loops.innermost? <;> rfl
  · intro s e hs he
    obtain ⟨labels, rest, hloops⟩ := List.exists_cons_of_ne_nil (hs rfl)
    have found : (innermostLoop stmt span).ending s = (.ok labels, s) := by
      rw [innermostLoop, ending_bind, read]
      simp only [LoopStack.innermost?, hloops, List.head?_cons]
      rfl
    simp [found] at he

lemma settles_jumpUnlessReturned (target : Label) : (jumpUnlessReturned target).Settles inLoop :=
  settles_read fun s => by
    split
    · exact settles_pure ()
    · exact settles_emit _

/-- **An action that settles succeeds or runs out of slots.** -/
lemma Settles.does_or_runsOut {x : Emit α} {n : Need} (hx : x.Settles inLoop)
    (hfills : Fills α x) (hneeds : Needs α n x) {s : State}
    (hs : inLoop = true → s.loops.loops ≠ []) : (∃ a r, x.Does s a r) ∨ x.RunsOut n s := by
  cases hend : (x.ending s).1 with
  | ok a => exact .inl ⟨a, (x.ending s).2, Prod.ext hend rfl⟩
  | error e =>
      obtain rfl := hx.fails s e hs hend
      exact .inr (runsOut_of_fails hfills hneeds hend)

end Lowering.Emit

namespace Typing

open Lowering Emit

variable {env : Env} {Γ : Context} {scope : ScopeId} {inLoop : Bool}

/-! ## Expressions -/

section

variable (env scope)

lemma settles_expectTy {e : Expr} {ty : Ty} (h : e.ty = ty) (role : OperandRole) :
    (expectTy e ty role).Settles inLoop := by
  rw [expectTy, if_pos h]
  exact settles_pure ()

lemma settles_loadVariable (name : String) (ty : Ty) : (loadVariable name ty).Settles inLoop :=
  (settles_slotOf _).bind fun _ => settles_emitAll _

lemma settles_lowerIdent (name : String) (ty : Ty) :
    (lowerIdent env scope name ty).Settles inLoop := by
  rw [lowerIdent]
  split
  · exact settles_emitAll _
  · exact settles_loadVariable _ _
  · exact settles_loadVariable _ _

lemma settles_lowerCallee (name : String) : (lowerCallee env scope name).Settles inLoop := by
  rw [lowerCallee]
  split
  · exact settles_emitAll _
  · exact (settles_slotOf _).bind fun _ => settles_emitAll _

lemma settles_finishCall (slot : Nat) (ret : Ty) : (finishCall slot ret).Settles inLoop := by
  refine (settles_emitAll _).seq ?_
  split
  · exact settles_emit _
  · exact settles_emitAll _

lemma settles_truthOf (branch : Label → Instruction) : (truthOf branch).Settles inLoop :=
  settles_freshLabel.bind fun _ => settles_freshLabel.bind fun _ => settles_emitAll _

end

/-- A well-typed value is lowered, and something follows. -/
lemma Agrees.settles_value (hΓ : Agrees env Γ) {α : Type} {e : Expr} {rest : Emit α}
    (ht : Γ.typed scope e = true) (he : (lowerExpr env scope e).Settles inLoop)
    (hrest : rest.Settles inLoop) :
    (requireValue env scope e >>= fun _ => lowerExpr env scope e >>= fun _ => rest).Settles
      inLoop := by
  rw [requireValue, if_pos (hΓ.producesValue ht)]
  exact (settles_pure ()).seq (he.seq hrest)

/-- A call whose arguments settle does so too. -/
lemma settles_lowerCall {note : Note} {callee : Expr} {args : List Expr} {signature : List Ty × Ty}
    (hcallee : Γ.signature? scope callee = some signature)
    (hargs : ∀ slot, (lowerElements env scope slot args).Settles inLoop) :
    (lowerExpr env scope (.call note callee args)).Settles inLoop := by
  obtain ⟨note', name, rfl, -⟩ := Context.signature?_eq_some hcallee
  rw [lowerExpr]
  exact (settles_lowerCallee env scope name).seq (settles_read fun _ =>
    (settles_slotOf _).bind fun slot =>
      (settles_inCall ((settles_emitAll _).seq (hargs slot))).seq (settles_finishCall _ _))

mutual

/-- **Lowering a well-typed expression settles.** -/
theorem Agrees.settles_lowerExpr (hΓ : Agrees env Γ) (e : Expr) (h : Γ.typed scope e = true) :
    (lowerExpr env scope e).Settles inLoop := by
  match e with
  | .int _ _ | .bool _ _ | .fnPtr _ _ =>
      rw [lowerExpr]
      exact settles_emitAll _
  | .str _ _ =>
      rw [lowerExpr]
      exact settles_emit _
  | .ident _ _ =>
      rw [lowerExpr]
      exact settles_lowerIdent env scope _ _
  | .list _ elements =>
      obtain ⟨-, -, -, helements⟩ := Context.exists_of_listTyped h
      rw [lowerExpr]
      exact settles_listLiteralSlot.bind fun slot => (settles_emitAll _).seq
        ((hΓ.settles_lowerElements slot elements helements).seq (settles_emitAll _))
  | .call _ _ args =>
      simp only [Context.typed, Bool.and_eq_true, decide_eq_true_eq] at h
      exact settles_lowerCall h.1.1 fun slot => hΓ.settles_lowerElements slot args h.2
  | .index _ _ [] | .index _ _ (_ :: _ :: _) => simp [Context.typed] at h
  | .index _ base [index] =>
      simp only [Context.typed, Bool.and_eq_true, decide_eq_true_eq] at h
      obtain ⟨⟨⟨hlist, hint⟩, hbase⟩, hindex⟩ := h
      rw [lowerExpr, hlist]
      refine (settles_expectTy hint _).seq (hΓ.settles_value hbase (hΓ.settles_lowerExpr base hbase)
        (hΓ.settles_value hindex (hΓ.settles_lowerExpr index hindex)
          ((settles_emitAll _).seq ((settles_emit _).seq ?_))))
      split
      · exact settles_pure ()
      · exact settles_emitAll _
  | .binary _ op lhs rhs =>
      simp only [Context.typed, Bool.and_eq_true, decide_eq_true_eq] at h
      obtain ⟨⟨hop, hlhs⟩, hrhs⟩ := h
      have left := hΓ.settles_lowerExpr lhs hlhs
      have right := hΓ.settles_lowerExpr rhs hrhs
      rw [lowerExpr]
      rcases resultTy?_eq_some hop with ⟨hcond, hl, hr, -⟩ | ⟨cond, comparison, hcond, hcompared, -⟩
      · rw [hcond]
        exact (settles_expectTy hl _).seq ((settles_expectTy hr _).seq (hΓ.settles_value hlhs left
          ((settles_emitAll _).seq (hΓ.settles_value hrhs right
            ((settles_emitAll _).seq ((settles_emit _).seq (settles_emitAll _)))))))
      · simp only [hcond, hcompared]
        cases comparison with
        | scalar _ =>
            exact hΓ.settles_value hlhs left ((settles_emitAll _).seq
              (hΓ.settles_value hrhs right ((settles_emitAll _).seq (settles_truthOf _))))
        | text =>
            exact hΓ.settles_value hlhs left (hΓ.settles_value hrhs right
              ((settles_emit _).seq (settles_truthOf _)))
        | identity =>
            exact hΓ.settles_value hlhs left (hΓ.settles_value hrhs right (settles_truthOf _))
  | .unary _ .neg operand =>
      simp only [Context.typed, unaryTyped, Bool.and_eq_true, decide_eq_true_eq] at h
      rw [lowerExpr]
      exact (settles_expectTy h.1.1 _).seq (hΓ.settles_value h.2 (hΓ.settles_lowerExpr operand h.2)
        ((settles_emitAll _).seq ((settles_emit _).seq (settles_emitAll _))))
  | .unary _ .not operand =>
      simp only [Context.typed, unaryTyped, Bool.and_eq_true, decide_eq_true_eq] at h
      rw [lowerExpr]
      exact (settles_expectTy h.1.1 _).seq (hΓ.settles_value h.2 (hΓ.settles_lowerExpr operand h.2)
        ((settles_emitAll _).seq ((settles_emitAll _).seq (settles_emitAll _))))
  | .unary _ .inc operand | .unary _ .dec operand =>
      simp only [Context.typed, unaryTyped, Bool.and_eq_true, decide_eq_true_eq] at h
      obtain ⟨name, hname⟩ := Option.isSome_iff_exists.1 h.1.1.1
      rw [lowerExpr, hname]
      · exact (settles_expectTy h.1.1.2 _).seq
          (hΓ.settles_value h.2 (hΓ.settles_lowerExpr operand h.2)
            ((settles_emitAll _).seq ((settles_emitAll _).seq ((settles_emitAll _).seq
              ((settles_emit _).seq ((settles_slotOf _).bind fun _ => settles_emit _))))))
      · simp
      · simp
  | .len _ operand =>
      simp only [Context.typed, Bool.and_eq_true, Bool.or_eq_true, decide_eq_true_eq] at h
      rw [lowerExpr]
      refine hΓ.settles_value h.2 (hΓ.settles_lowerExpr operand h.2) ?_
      rcases h.1.1 with htext | hlist
      · rw [htext]
        exact (settles_emit _).seq (settles_emitAll _)
      · cases hty : operand.ty with
        | list element => exact (settles_emit _).seq (settles_emitAll _)
        | _ => simp [hty, Ty.isList] at hlist
  | .chop _ operand =>
      simp only [Context.typed, Bool.and_eq_true, decide_eq_true_eq] at h
      rw [lowerExpr]
      exact (settles_expectTy h.1.1 _).seq (hΓ.settles_value h.2 (hΓ.settles_lowerExpr operand h.2)
        (settles_emitAll _))

theorem Agrees.settles_lowerElements (hΓ : Agrees env Γ) (slot : Nat) (es : List Expr)
    (h : Γ.allTyped scope es = true) : (lowerElements env scope slot es).Settles inLoop := by
  match es with
  | [] =>
      rw [lowerElements]
      exact settles_pure ()
  | e :: rest =>
      simp only [Context.allTyped, Bool.and_eq_true] at h
      have first := hΓ.settles_lowerExpr e h.1
      have others := (settles_emitAll [.callVirtual .arrayAdd, .pop]).seq
        (hΓ.settles_lowerElements slot rest h.2)
      rw [lowerElements]
      refine (settles_emit _).seq ?_
      dsimp only
      split
      · exact (settles_emitAll _).seq (hΓ.settles_value h.1 first ((settles_emit _).seq others))
      · exact hΓ.settles_value h.1 first others

end

lemma Agrees.settles_lowerValue (hΓ : Agrees env Γ) {e : Expr} (h : Γ.typed scope e = true) :
    (lowerValue env scope e).Settles inLoop := by
  rw [lowerValue, requireValue, if_pos (hΓ.producesValue h)]
  exact (settles_pure ()).seq (hΓ.settles_lowerExpr e h)

/-! ## Statements -/

lemma Agrees.settles_lowerAssign (hΓ : Agrees env Γ) {span : Span} {target value : Expr}
    {index : Option Expr} {op : AssignOp}
    (h : Γ.stmtTyped inLoop scope (.assign span target index op value) = true) :
    (lowerAssign env scope target index op value).Settles inLoop := by
  cases index with
  | none =>
      rw [Context.stmtTyped, Bool.and_eq_true] at h
      obtain ⟨note, name, v, rfl, -, -, -⟩ := Context.exists_of_variableTyped h.1
      have hvalue := (Context.typedAs_iff.1 h.2).1
      exact (settles_slotOf _).bind fun _ => (hΓ.settles_lowerValue hvalue).seq (settles_emit _)
  | some index =>
      rw [Context.stmtTyped, Bool.and_eq_true, Bool.and_eq_true, Option.any_eq_true] at h
      obtain ⟨⟨htarget, hindex⟩, element, helement, hvalue⟩ := h
      obtain ⟨note, name, v, rfl, -, -, -⟩ := Context.exists_of_variableTyped htarget
      obtain ⟨hindex, hint⟩ := Context.typedAs_iff.1 hindex
      have hvalue := (Context.typedAs_iff.1 hvalue).1
      refine (settles_slotOf _).bind fun _ => ?_
      simp only [helement]
      exact (settles_expectTy hint _).seq ((settles_emitAll _).seq
        ((hΓ.settles_lowerValue hindex).seq ((settles_emitAll _).seq
          ((hΓ.settles_lowerValue hvalue).seq (settles_emit _)))))

lemma Agrees.settles_lowerPut (hΓ : Agrees env Γ) {value : Expr} (h : Γ.typed scope value = true)
    (hvoid : value.ty.isVoid = false) : (lowerPut env scope value).Settles inLoop := by
  obtain ⟨what, hwhat⟩ : ∃ what, printed? value.ty = some what := by
    cases hty : value.ty with
    | void => simp [hty, Ty.isVoid] at hvoid
    | _ => exact ⟨_, rfl⟩
  rw [lowerPut, hwhat]
  exact (settles_emit _).seq ((hΓ.settles_lowerValue h).seq
    ((settles_emitAll _).seq ((settles_emitAll _).seq (settles_emit _))))

mutual

/-- **Lowering a well-typed statement settles**, with a loop around it whenever it is typed inside
one. -/
theorem Agrees.settles_lowerStmt (hΓ : Agrees env Γ) (stmt : Stmt) {inLoop : Bool} {scope : ScopeId}
    (h : Γ.stmtTyped inLoop scope stmt = true) : (lowerStmt env scope stmt).Settles inLoop := by
  match stmt with
  | .assign _ _ _ _ _ =>
      rw [lowerStmt]
      exact hΓ.settles_lowerAssign h
  | .branch _ cond thenBody elseBody block =>
      rw [Context.stmtTyped, Bool.and_eq_true, Bool.and_eq_true, ← hΓ.symbols] at h
      obtain ⟨⟨hcond, hthen⟩, helse⟩ := h
      obtain ⟨hcond, hbool⟩ := Context.typedAs_iff.1 hcond
      rw [lowerStmt, if_pos hbool]
      exact (settles_pure ()).seq ((hΓ.settles_lowerValue hcond).seq ((settles_emitAll _).seq
        (settles_freshLabel.bind fun _ => settles_freshLabel.bind fun _ =>
          (settles_emit _).seq ((hΓ.settles_lowerBlock thenBody hthen).seq
            ((settles_jumpUnlessReturned _).seq ((settles_emit _).seq
              ((hΓ.settles_lowerBlock elseBody helse).seq (settles_emit _))))))))
  | .loop _ body block =>
      rw [Context.stmtTyped, ← hΓ.symbols] at h
      rw [lowerStmt]
      exact settles_freshLabel.bind fun _ => settles_freshLabel.bind fun _ =>
        (settles_withLoop _ ((settles_emit _).seq (hΓ.settles_lowerBlock body h))).seq
          (settles_emitAll _)
  | .exitLoop _ | .nextLoop _ =>
      obtain rfl : inLoop = true := by simpa [Context.stmtTyped] using h
      rw [lowerStmt]
      exact (settles_innermostLoop _ _).bind fun _ => settles_emit _
  | .ret _ none =>
      rw [lowerStmt]
      exact settles_emit _
  | .ret _ (some value) =>
      rw [Context.stmtTyped, Bool.and_eq_true] at h
      rw [lowerStmt]
      exact (hΓ.settles_lowerValue h.1).seq (settles_emit _)
  | .put _ value =>
      rw [Context.stmtTyped, Bool.and_eq_true, Bool.not_eq_true'] at h
      rw [lowerStmt]
      exact hΓ.settles_lowerPut h.1 h.2
  | .eval _ e =>
      rw [Context.stmtTyped, Bool.or_eq_true] at h
      have lowered : (lowerExpr env scope e).Settles inLoop := by
        by_cases ht : Γ.typed scope e = true
        · exact hΓ.settles_lowerExpr e ht
        · obtain ⟨note, callee, args, rfl, hcallee, -, hargs⟩ :=
            Context.exists_of_procedure (h.resolve_left ht) ht
          exact settles_lowerCall hcallee fun slot => hΓ.settles_lowerElements slot args hargs
      rw [lowerStmt]
      refine lowered.seq ?_
      split
      · exact settles_emit _
      · exact settles_pure ()

/-- **Lowering a well-typed block settles.** -/
theorem Agrees.settles_lowerBlock (hΓ : Agrees env Γ) (block : List Stmt) {inLoop : Bool}
    {scope : ScopeId} (h : Γ.blockTyped inLoop scope block = true) :
    (lowerBlock env scope block).Settles inLoop := by
  match block with
  | [] =>
      rw [lowerBlock]
      exact settles_pure ()
  | stmt :: rest =>
      rw [Context.blockTyped, Bool.and_eq_true] at h
      rw [lowerBlock]
      exact (hΓ.settles_lowerStmt stmt h.1).seq (hΓ.settles_lowerBlock rest h.2)

end

end Typing

end StackBackend
