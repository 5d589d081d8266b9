import StackBackend.Proofs.Lowering.Shape.ClassUnit

/-!
# Where the calls of a program stand

Every call in a body that is lowered has code of its own, inside the code of the body.

* `Expr.calls`, `Stmt.calls` — the calls in an expression, and in a statement;
* `Stands env call code` — the code of a call stands in a piece of code;
* `BlockCode.stands` — every call of a block stands in the code of the block.
-/

namespace StackBackend

/-! ## Calls in trees -/

namespace Expr

mutual

/-- The calls in an expression, from the outside in. -/
def calls : Expr → List Expr
  | list _ elements => callsIn elements
  | call note callee args => call note callee args :: (callee.calls ++ callsIn args)
  | index _ base indices => base.calls ++ callsIn indices
  | binary _ _ lhs rhs => lhs.calls ++ rhs.calls
  | unary _ _ operand | len _ operand | chop _ operand => operand.calls
  | int _ _ | bool _ _ | str _ _ | ident _ _ | fnPtr _ _ => []

/-- The calls in expressions. -/
def callsIn : List Expr → List Expr
  | [] => []
  | e :: rest => e.calls ++ callsIn rest

end

lemma calls_of_ident? {e : Expr} {name : String} (h : e.ident? = some name) : e.calls = [] := by
  cases e with
  | ident _ _ => simp [calls]
  | _ => simp [ident?] at h

end Expr

namespace Stmt

mutual

/-- The calls in a statement. -/
def calls : Stmt → List Expr
  | assign _ target index _ value => target.calls ++ Expr.callsIn index.toList ++ value.calls
  | branch _ cond thenBody elseBody _ => cond.calls ++ callsIn thenBody ++ callsIn elseBody
  | loop _ body _ => callsIn body
  | ret _ value => Expr.callsIn value.toList
  | put _ value | eval _ value => value.calls
  | exitLoop _ | nextLoop _ => []

/-- The calls in a block. -/
def callsIn : List Stmt → List Expr
  | [] => []
  | stmt :: rest => stmt.calls ++ callsIn rest

end

end Stmt

/-- The bodies of a program that are lowered: the entry unit and the functions to emit. -/
def CheckedProgram.bodies (p : CheckedProgram) : List (List Stmt) :=
  p.program.main.body :: p.reachable.filterMap fun name => (p.program.function? name).map (·.body)

namespace Lowering

/-! ## Calls in code -/

/-- **The code of a call stands in a piece of code.** -/
def Stands (env : Env) (call : Expr) (code : List Instruction) : Prop :=
  ∃ scope depth t own u, ExprCode env scope depth t call own u ∧ own <:+: code

variable {env : Env} {scope : ScopeId} {depth : Nat} {t u : Supply} {call e : Expr}
  {code more : List Instruction}

lemma Stands.mono (h : Stands env call code) (hsub : code <:+: more) : Stands env call more := by
  obtain ⟨scope, depth, t, own, u, hown, hinfix⟩ := h
  exact ⟨scope, depth, t, own, u, hown, hinfix.trans hsub⟩

lemma Stands.append_left (h : Stands env call code) : Stands env call (code ++ more) :=
  h.mono (List.infix_append' [] code more)

lemma Stands.append_right (h : Stands env call more) : Stands env call (code ++ more) :=
  h.mono (List.suffix_append code more).isInfix

lemma Stands.cons {i : Instruction} (h : Stands env call code) : Stands env call (i :: code) :=
  h.mono (List.suffix_cons i code).isInfix

lemma LeafCode.calls (h : LeafCode env scope t e code u) : e.calls = [] := by
  cases h with
  | int | bool | str | fn _ | var _ | pointer => simp [Expr.calls]

lemma UnaryCode.calls {operand : Expr} (h : UnaryCode t e operand code u) :
    e.calls = operand.calls := by
  cases h with
  | neg _ | not _ | count _ _ _ _ | lenText _ | lenList _ | chop _ => simp [Expr.calls]

lemma BinaryCode.calls {lhs rhs : Expr} {middle last : List Instruction}
    (h : BinaryCode t e lhs rhs middle last u) : e.calls = lhs.calls ++ rhs.calls := by
  cases h with
  | arith _ _ _ | scalar _ _ | text _ _ | identity _ _ | index _ _ =>
      simp [Expr.calls, Expr.callsIn]

mutual

/-- **The calls in an expression stand in its code.** -/
theorem ExprCode.stands {depth : Nat} {t u : Supply} {e : Expr} {code : List Instruction}
    (h : ExprCode env scope depth t e code u) : ∀ call ∈ e.calls, Stands env call code := by
  intro call hcall
  match h with
  | .leaf hleaf =>
      rw [hleaf.calls] at hcall
      cases hcall
  | .unary _ hoperand hcode =>
      rw [hcode.calls] at hcall
      exact (hoperand.stands call hcall).append_left
  | .binary _ hlhs _ hrhs hcode =>
      rw [hcode.calls, List.mem_append] at hcall
      rcases hcall with hcall | hcall
      · exact (hlhs.stands call hcall).append_left.append_left.append_left
      · exact (hrhs.stands call hcall).append_right.append_left
  | .list _ helements =>
      rw [Expr.calls] at hcall
      exact (helements.stands call hcall).append_right.append_left
  | .call hfirst hroom hargs =>
      rw [Expr.calls, List.mem_cons, Expr.calls, List.nil_append] at hcall
      rcases hcall with rfl | hcall
      · exact ⟨_, _, _, _, _, .call hfirst hroom hargs, List.infix_rfl⟩
      · exact (hargs.stands call hcall).append_right.append_left.append_left

theorem ElementsCode.stands {depth slot : Nat} {t u : Supply} {es : List Expr}
    {code : List Instruction} (h : ElementsCode env scope depth slot t es code u) :
    ∀ call ∈ Expr.callsIn es, Stands env call code := by
  intro call hcall
  match h with
  | .nil => simp [Expr.callsIn] at hcall
  | .cons _ he hrest =>
      rw [Expr.callsIn, List.mem_append] at hcall
      rcases hcall with hcall | hcall
      · exact (he.stands call hcall).append_right.append_left.append_left.append_left
      · exact (hrest.stands call hcall).append_right

end

lemma calls_assignedValue {op : AssignOp} {current value : Expr} (h : call ∈ value.calls) :
    call ∈ (assignedValue op current value).calls := by
  rw [assignedValue]
  split
  · exact h
  · simp [Expr.calls, h]

lemma PlainCode.stands {loop : Option LoopLabels} {stmt : Stmt}
    (h : PlainCode env depth loop scope t stmt code u) :
    ∀ call ∈ stmt.calls, Stands env call code := by
  intro call hcall
  cases h with
  | assign _ hname hvalue =>
      simp only [Stmt.calls, Expr.calls_of_ident? hname, Option.toList, Expr.callsIn,
        List.nil_append] at hcall
      exact (hvalue.2.stands call (calls_assignedValue hcall)).append_left
  | assignElement _ hname _ _ hindex hvalue =>
      simp only [Stmt.calls, Expr.calls_of_ident? hname, Option.toList, Expr.callsIn,
        List.nil_append, List.append_nil, List.mem_append] at hcall
      rcases hcall with hcall | hcall
      · exact (hindex.2.stands call hcall).append_right.append_left.append_left.append_left
      · exact (hvalue.2.stands call (calls_assignedValue hcall)).append_right.append_left
  | exitLoop _ | nextLoop _ | ret => simp [Stmt.calls, Expr.callsIn] at hcall
  | retValue hvalue =>
      simp only [Stmt.calls, Option.toList, Expr.callsIn, List.append_nil] at hcall
      exact (hvalue.2.stands call hcall).append_left
  | put hvalue _ =>
      rw [Stmt.calls] at hcall
      rw [append_printCode]
      exact (hvalue.2.stands call hcall).append_left.cons
  | eval hexpr =>
      rw [Stmt.calls] at hcall
      exact (hexpr.stands call hcall).append_left

mutual

/-- **The calls in a statement stand in its code.** -/
theorem StmtCode.stands {loop : Option LoopLabels} {scope : ScopeId} {t u : Supply} {stmt : Stmt}
    {code : List Instruction} (h : StmtCode env depth loop scope t stmt code u) :
    ∀ call ∈ stmt.calls, Stands env call code := by
  intro call hcall
  match h with
  | .plain hplain => exact hplain.stands call hcall
  | .branch _ hcond hthen helse =>
      simp only [Stmt.calls, List.mem_append] at hcall
      rcases hcall with (hcall | hcall) | hcall
      · exact (hcond.2.stands call hcall).append_left.append_left.append_left
          |>.append_left.append_left.append_left
      · exact (hthen.stands call hcall).append_right.append_left.append_left
          |>.append_left.append_left
      · exact (helse.stands call hcall).append_right.append_left
  | .loop hbody =>
      rw [Stmt.calls] at hcall
      exact (hbody.stands call hcall).cons.append_left

theorem BlockCode.stands {loop : Option LoopLabels} {scope : ScopeId} {t u : Supply}
    {block : List Stmt} {code : List Instruction}
    (h : BlockCode env depth loop scope t block code u) :
    ∀ call ∈ Stmt.callsIn block, Stands env call code := by
  intro call hcall
  match h with
  | .nil => simp [Stmt.callsIn] at hcall
  | .cons hstmt hrest =>
      rw [Stmt.callsIn, List.mem_append] at hcall
      rcases hcall with hcall | hcall
      · exact (hstmt.stands call hcall).append_left
      · exact (hrest.stands call hcall).append_right

end

end Lowering

end StackBackend
