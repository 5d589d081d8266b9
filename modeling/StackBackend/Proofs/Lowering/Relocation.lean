import StackBackend.Proofs.Lowering.MethodDepths
import StackBackend.Proofs.Lowering.Occurrences
import StackBackend.Proofs.StackProfile.Renaming

/-!
# Lowering a body from other labels

What a body is lowered to depends on what was lowered before it in two ways: the labels that are
taken already, and the return types that are known already.

**Labels** are handed out one after another, so a body that is lowered from another number gets the
same code with its labels moved: under `Slides f base` a supply above `base` can be renamed by `f`,
and the code is renamed with it.  `f` may go up or down, so a body lowered late in a class can be
brought back to the label zero.

**Return types** are asked for at calls only.  `Stmt.callSites` lists the calls of a statement with
the scopes they stand in, and tables that answer alike there lead to the same code.

`BodyCode.relocated` puts the two together; `BodyCode.raised` and `BodyCode.alone` are its two uses.
-/

namespace StackBackend

/-! ## Calls and their scopes -/

namespace Stmt

mutual

/-- The calls in a statement, each with the scope it stands in. -/
def callSites (t : SymbolTable) (scope : ScopeId) : Stmt → List (ScopeId × Expr)
  | branch _ cond thenBody elseBody block =>
      cond.calls.map (scope, ·) ++ callSitesIn t (t.enter scope block) thenBody ++
        callSitesIn t (t.enter scope block) elseBody
  | loop _ body block => callSitesIn t (t.enter scope block) body
  | plain => plain.calls.map (scope, ·)

/-- The calls in a block, each with the scope it stands in. -/
def callSitesIn (t : SymbolTable) (scope : ScopeId) : List Stmt → List (ScopeId × Expr)
  | [] => []
  | stmt :: rest => callSites t scope stmt ++ callSitesIn t scope rest

end

end Stmt

namespace Lowering

/-- The type that a call is lowered with; none for what is no call of a name. -/
def callTy? (env : Env) (scope : ScopeId) : Expr → Option Ty
  | .call note callee _ => callee.ident?.map fun name => callType env scope name note.ty
  | _ => none

lemma producesValue_eq (env : Env) (scope : ScopeId) (e : Expr) :
    producesValue env scope e = !(callTy? env scope e).any Ty.isVoid := by
  cases e with
  | call note callee args =>
      rw [producesValue, callTy?]
      cases callee.ident? <;> rfl
  | _ => rfl

/-- Two tables of return types answer alike at a call. -/
def Agree (symbols : SymbolTable) (returns returns' : NameMap Ty) (scope : ScopeId) (call : Expr) :
    Prop := callTy? ⟨symbols, returns'⟩ scope call = callTy? ⟨symbols, returns⟩ scope call

variable {symbols : SymbolTable} {returns returns' : NameMap Ty} {scope : ScopeId}

lemma producesValue_of_agree {e : Expr}
    (h : ∀ call ∈ e.calls, Agree symbols returns returns' scope call) :
    producesValue ⟨symbols, returns'⟩ scope e = producesValue ⟨symbols, returns⟩ scope e := by
  rw [producesValue_eq, producesValue_eq]
  cases e with
  | call note callee args => rw [h _ (by simp [Expr.calls])]
  | _ => rfl

/-! ## Renaming along a supply -/

/-- A renaming that keeps the distance of numbers from a base on. -/
def Slides (f : Nat → Nat) (base : Nat) : Prop := ∀ n, base ≤ n → f (n + 1) = f n + 1

/-- A supply that has handed out renamed labels. -/
def Supply.rename (f : Nat → Nat) (t : Supply) : Supply := { t with labels := f t.labels }

variable {f : Nat → Nat} {base : Nat} {t u : Supply} {depth : Nat}

lemma Supply.rename_withLabels (hf : Slides f base) (ht : base ≤ t.labels) :
    t.withLabels.rename f = (t.rename f).withLabels := by
  have two : f (t.labels + 2) = f t.labels + 2 := by
    rw [hf (t.labels + 1) (by omega), hf t.labels ht]
  simp [Supply.rename, Supply.withLabels, two]

open StackProfile in
/-- Code without labels is as it was. -/
lemma rename_straight {d e : Nat} {code : List Instruction} (h : straightDepth? d code = some e) :
    code.map (Instruction.rename f) = code := by
  induction code generalizing d with
  | nil => rfl
  | cons i rest ih =>
      rw [straightDepth?] at h
      split at h
      · next hi =>
          have same : i.rename f = i := by
            cases i with
            | jump _ | ifZero _ | ifNonzero _ | ifInt _ _ | ifRef _ _ | label _ =>
                simp [Instruction.isStraight] at hi
            | _ => rfl
          rw [List.map_cons, same, ih h]
      · simp at h

@[simp] lemma rename_downcast (ty : Ty) : (downcast ty).map (Instruction.rename f) = downcast ty :=
  rename_straight (straight_downcast ty 0)

@[simp] lemma rename_unboxing (ty : Ty) : (unboxing ty).map (Instruction.rename f) = unboxing ty :=
  rename_straight (straight_unboxing ty 0)

@[simp] lemma rename_elementCode (ty : Ty) :
    (elementCode ty).map (Instruction.rename f) = elementCode ty :=
  rename_straight (straight_elementCode ty 0)

@[simp] lemma rename_resultCode (ty : Ty) :
    (resultCode ty).map (Instruction.rename f) = resultCode ty :=
  rename_straight (straight_resultCode ty 0)

@[simp] lemma rename_openCopy (ty : Ty) : (openCopy ty).map (Instruction.rename f) = openCopy ty :=
  rename_straight (straight_openCopy ty 0)

@[simp] lemma rename_closeCopy (ty : Ty) :
    (closeCopy ty).map (Instruction.rename f) = closeCopy ty :=
  rename_straight (straight_closeCopy ty 0)

lemma rename_truthCode (hf : Slides f base) {n : Nat} (hn : base ≤ n) {branch : Label → Instruction}
    (hbranch : ∀ l, (branch l).rename f = branch (l.rename f)) :
    (truthCode branch n).map (Instruction.rename f) = truthCode branch (f n) := by
  have next : (⟨n + 1⟩ : Label).rename f = ⟨f n + 1⟩ := by rw [Label.rename, hf n hn]
  simp only [truthCode, List.map_cons, List.map_nil, hbranch]
  simp only [Instruction.rename, next]
  rfl

/-! ## Expressions -/

variable {code : List Instruction}

lemma LeafCode.relocated {e : Expr} (h : LeafCode ⟨symbols, returns⟩ scope t e code u) :
    LeafCode ⟨symbols, returns'⟩ scope (t.rename f) e (code.map (Instruction.rename f))
      (u.rename f) := by
  cases h with
  | int => exact .int
  | bool => exact .bool
  | str => exact .str
  | fn hlookup => exact .fn hlookup
  | var hroom hlookup =>
      rw [List.map_cons, rename_downcast]
      exact .var hroom hlookup
  | pointer => exact .pointer

lemma CalleeCode.relocated {name : String} (h : CalleeCode ⟨symbols, returns⟩ scope t name code u) :
    CalleeCode ⟨symbols, returns'⟩ scope (t.rename f) name (code.map (Instruction.rename f))
      (u.rename f) := by
  cases h with
  | fn hlookup => exact .fn hlookup
  | var hroom hlookup => exact .var hroom hlookup

lemma UnaryCode.relocated {e operand : Expr} (h : UnaryCode t e operand code u) :
    UnaryCode (t.rename f) e operand (code.map (Instruction.rename f)) (u.rename f) := by
  cases h with
  | neg hty => exact .neg hty
  | not hty => exact .not hty
  | count hroom hop hname hty => exact .count hroom hop hname hty
  | lenText hty => exact .lenText hty
  | lenList hty => exact .lenList hty
  | chop hty => exact .chop hty

lemma BinaryCode.relocated {e lhs rhs : Expr} {middle last : List Instruction}
    (h : BinaryCode t e lhs rhs middle last u) (hf : Slides f base) (ht : base ≤ t.labels) :
    BinaryCode (t.rename f) e lhs rhs (middle.map (Instruction.rename f))
      (last.map (Instruction.rename f)) (u.rename f) := by
  cases h with
  | arith hop hlhs hrhs => exact .arith hop hlhs hrhs
  | scalar hcond hcomp =>
      rw [List.map_append, rename_unboxing, rename_unboxing, rename_truthCode hf ht fun _ => rfl,
        Supply.rename_withLabels hf ht]
      exact .scalar hcond hcomp
  | text hcond hcomp =>
      rw [List.map_cons, rename_truthCode hf ht (by intro l; split <;> rfl),
        Supply.rename_withLabels hf ht]
      exact .text hcond hcomp
  | identity hcond hcomp =>
      rw [rename_truthCode hf ht fun _ => rfl, Supply.rename_withLabels hf ht]
      exact .identity hcond hcomp
  | index helement hty =>
      rw [List.map_cons, List.map_cons, rename_elementCode]
      exact .index helement hty

mutual

/-- **The code of an expression, from other labels.** -/
theorem ExprCode.relocated (hf : Slides f base) {depth : Nat} {t u : Supply} {e : Expr}
    {code : List Instruction} (h : ExprCode ⟨symbols, returns⟩ scope depth t e code u)
    (hcalls : ∀ call ∈ e.calls, Agree symbols returns returns' scope call) (ht : base ≤ t.labels) :
    ExprCode ⟨symbols, returns'⟩ scope depth (t.rename f) e (code.map (Instruction.rename f))
      (u.rename f) := by
  match h with
  | .leaf hleaf => exact .leaf hleaf.relocated
  | .unary hv hoperand hcode =>
      rw [hcode.calls] at hcalls
      rw [List.map_append]
      exact .unary (producesValue_of_agree hcalls ▸ hv) (hoperand.relocated hf hcalls ht)
        hcode.relocated
  | .binary hvl hlhs hvr hrhs hcode =>
      rw [hcode.calls] at hcalls
      have hleft : ∀ call ∈ _, _ := fun call hcall => hcalls call (List.mem_append_left _ hcall)
      have hright : ∀ call ∈ _, _ := fun call hcall => hcalls call (List.mem_append_right _ hcall)
      have hu := Nat.le_trans ht (hlhs.balanced none 0).1
      have hv := Nat.le_trans hu (hrhs.balanced none 0).1
      rw [List.map_append, List.map_append, List.map_append]
      exact .binary (producesValue_of_agree hleft ▸ hvl) (hlhs.relocated hf hleft ht)
        (producesValue_of_agree hright ▸ hvr) (hrhs.relocated hf hright hu) (hcode.relocated hf hv)
  | .list hroom helements =>
      rw [Expr.calls] at hcalls
      rw [List.map_append, List.map_append]
      exact .list hroom (helements.relocated hf hcalls ht)
  | @ExprCode.call _ _ _ _ u _ note note' name args first code hfirst hroom hargs =>
      have hu := Nat.le_trans ht (hfirst.balanced none 0).1
      have hty : callType ⟨symbols, returns'⟩ scope name note.ty =
          callType ⟨symbols, returns⟩ scope name note.ty := by
        simpa [Agree, callTy?, Expr.ident?] using
          hcalls (.call note (.ident note' name) args) (by simp [Expr.calls])
      have hin : ∀ call ∈ Expr.callsIn args, _ :=
        fun call hcall => hcalls call (by simp [Expr.calls, hcall])
      simp only [List.map_append, rename_resultCode]
      rw [← hty]
      exact ExprCode.call (u := u.rename f) hfirst.relocated hroom
        (hargs.relocated hf hin hu)

theorem ElementsCode.relocated (hf : Slides f base) {depth slot : Nat} {t u : Supply}
    {es : List Expr} {code : List Instruction}
    (h : ElementsCode ⟨symbols, returns⟩ scope depth slot t es code u)
    (hcalls : ∀ call ∈ Expr.callsIn es, Agree symbols returns returns' scope call)
    (ht : base ≤ t.labels) :
    ElementsCode ⟨symbols, returns'⟩ scope depth slot (t.rename f) es
      (code.map (Instruction.rename f)) (u.rename f) := by
  match h with
  | .nil => exact .nil
  | .cons hv he hrest =>
      rw [Expr.callsIn] at hcalls
      have hfirst : ∀ call ∈ _, _ := fun call hcall => hcalls call (List.mem_append_left _ hcall)
      have hu := Nat.le_trans ht (he.balanced none 0).1
      simp only [List.map_append, List.map_cons, rename_openCopy, rename_closeCopy]
      exact .cons (producesValue_of_agree hfirst ▸ hv) (he.relocated hf hfirst ht)
        (hrest.relocated hf (fun call hcall => hcalls call (List.mem_append_right _ hcall)) hu)

end

lemma ValueCode.relocated (hf : Slides f base) {e : Expr}
    (h : ValueCode ⟨symbols, returns⟩ scope depth t e code u)
    (hcalls : ∀ call ∈ e.calls, Agree symbols returns returns' scope call) (ht : base ≤ t.labels) :
    ValueCode ⟨symbols, returns'⟩ scope depth (t.rename f) e (code.map (Instruction.rename f))
      (u.rename f) :=
  ⟨producesValue_of_agree hcalls ▸ h.1, h.2.relocated hf hcalls ht⟩

/-! ## Statements -/

/-- The labels of a loop, renamed. -/
def LoopLabels.rename (f : Nat → Nat) (labels : LoopLabels) : LoopLabels :=
  ⟨labels.start.rename f, labels.exit.rename f⟩

/-- The calls of a combined assignment are those of its two sides. -/
lemma mem_calls_of_assignedValue {op : AssignOp} {current value call : Expr}
    (h : call ∈ (assignedValue op current value).calls) : call ∈ current.calls ++ value.calls := by
  rw [assignedValue] at h
  split at h
  · exact List.mem_append_right _ h
  · simpa [Expr.calls] using h

lemma PlainCode.relocated (hf : Slides f base) {loop : Option LoopLabels} {stmt : Stmt}
    (h : PlainCode ⟨symbols, returns⟩ depth loop scope t stmt code u)
    (hcalls : ∀ call ∈ stmt.calls, Agree symbols returns returns' scope call)
    (ht : base ≤ t.labels) :
    PlainCode ⟨symbols, returns'⟩ depth (loop.map (LoopLabels.rename f)) scope (t.rename f) stmt
      (code.map (Instruction.rename f)) (u.rename f) := by
  cases h with
  | assign hroom hname hvalue =>
      rw [List.map_append]
      refine .assign hroom hname (hvalue.relocated hf ?_ ht)
      intro call hcall
      refine hcalls call ?_
      simpa [Stmt.calls, Expr.callsIn] using mem_calls_of_assignedValue hcall
  | assignElement hroom hname helement hty hindex hvalue =>
      have hu := Nat.le_trans ht (hindex.balanced none 0).1
      simp only [List.map_append]
      refine .assignElement hroom hname helement hty (hindex.relocated hf ?_ ht)
        (hvalue.relocated hf ?_ hu)
      · intro call hcall
        exact hcalls call (by simp [Stmt.calls, Expr.callsIn, hcall])
      · intro call hcall
        refine hcalls call ?_
        simpa [Stmt.calls, Expr.calls, Expr.callsIn] using mem_calls_of_assignedValue hcall
  | exitLoop hloop =>
      have renamed := congrArg (Option.map (LoopLabels.rename f)) hloop
      exact .exitLoop renamed
  | nextLoop hloop =>
      have renamed := congrArg (Option.map (LoopLabels.rename f)) hloop
      exact .nextLoop renamed
  | ret => exact .ret
  | retValue hvalue =>
      rw [List.map_append]
      refine .retValue (hvalue.relocated hf ?_ ht)
      intro call hcall
      exact hcalls call (by simp [Stmt.calls, Expr.callsIn, hcall])
  | put hvalue hwhat =>
      simp only [List.map_append, List.map_cons, rename_downcast, rename_unboxing]
      exact .put (hvalue.relocated hf (by simpa [Stmt.calls] using hcalls) ht) hwhat
  | @eval _ _ e _ hexpr =>
      rw [Stmt.calls] at hcalls
      have same := producesValue_of_agree hcalls
      have dropped :
          (if producesValue ⟨symbols, returns⟩ scope e then [Instruction.pop] else []).map
            (Instruction.rename f) =
            if producesValue ⟨symbols, returns'⟩ scope e then [Instruction.pop] else [] := by
        rw [same]
        split <;> rfl
      rw [List.map_append, dropped]
      exact .eval (hexpr.relocated hf hcalls ht)

lemma endsInReturn_rename (f : Nat → Nat) (code : List Instruction) :
    endsInReturn (code.map (Instruction.rename f)) = endsInReturn code := by
  rw [endsInReturn, endsInReturn, List.getLast?_map]
  cases code.getLast? <;> simp

lemma rename_skipCode (f : Nat → Nat) (code : List Instruction) (l : Label) :
    (skipCode code l).map (Instruction.rename f) =
      skipCode (code.map (Instruction.rename f)) (l.rename f) := by
  rw [skipCode, skipCode, endsInReturn_rename]
  split <;> rfl

lemma PlainCode.callSites_eq {env : Env} {loop : Option LoopLabels} {stmt : Stmt}
    (h : PlainCode env depth loop scope t stmt code u) (symbols : SymbolTable) :
    stmt.callSites symbols scope = stmt.calls.map (scope, ·) := by
  cases h <;> simp [Stmt.callSites]

mutual

/-- **The code of a statement, from other labels.** -/
theorem StmtCode.relocated (hf : Slides f base) {loop : Option LoopLabels} {scope : ScopeId}
    {t u : Supply} {stmt : Stmt} {code : List Instruction}
    (h : StmtCode ⟨symbols, returns⟩ depth loop scope t stmt code u)
    (hcalls : ∀ site ∈ stmt.callSites symbols scope,
      Agree symbols returns returns' site.1 site.2) (ht : base ≤ t.labels) :
    StmtCode ⟨symbols, returns'⟩ depth (loop.map (LoopLabels.rename f)) scope (t.rename f) stmt
      (code.map (Instruction.rename f)) (u.rename f) := by
  match h with
  | .plain hplain =>
      refine .plain (hplain.relocated hf ?_ ht)
      intro call hcall
      rw [hplain.callSites_eq] at hcalls
      exact hcalls (scope, call) (List.mem_map_of_mem hcall)
  | @StmtCode.branch _ _ _ _ _ u _ _ _ cond _ _ _ _ second _ hty hcond hthen helse =>
      rw [Stmt.callSites] at hcalls
      have hu := Nat.le_trans ht (hcond.balanced none 0).1
      have hthenLabels : base ≤ u.withLabels.labels := Nat.le_trans hu (by simp)
      have helseLabels := Nat.le_trans hthenLabels hthen.balanced.1
      have hcondition := hcond.relocated (f := f) hf (fun call hcall => hcalls (scope, call)
        (by simp [hcall])) ht
      have hfirst := hthen.relocated hf (fun site hsite => hcalls site (by simp [hsite]))
        hthenLabels
      have hsecond := helse.relocated hf (fun site hsite => hcalls site (by simp [hsite]))
        helseLabels
      rw [Supply.rename_withLabels hf hu] at hfirst
      have after : (⟨u.labels + 1⟩ : Label).rename f = ⟨(u.rename f).labels + 1⟩ := by
        rw [Label.rename, hf u.labels hu]
        rfl
      simp only [List.map_append, List.map_cons, List.map_nil, rename_skipCode]
      simp only [Instruction.rename, after]
      exact .branch hty hcondition hfirst hsecond
  | @StmtCode.loop _ _ _ _ t _ _ _ _ _ hbody =>
      rw [Stmt.callSites] at hcalls
      have inner := hbody.relocated hf hcalls (Nat.le_trans ht (by simp))
      have after : (⟨t.labels + 1⟩ : Label).rename f = ⟨(t.rename f).labels + 1⟩ := by
        rw [Label.rename, hf t.labels ht]
        rfl
      rw [Supply.rename_withLabels hf ht, Option.map_some, LoopLabels.rename, after] at inner
      simp only [List.map_append, List.map_cons, List.map_nil]
      simp only [Instruction.rename, after]
      exact .loop inner

theorem BlockCode.relocated (hf : Slides f base) {loop : Option LoopLabels} {scope : ScopeId}
    {t u : Supply} {block : List Stmt} {code : List Instruction}
    (h : BlockCode ⟨symbols, returns⟩ depth loop scope t block code u)
    (hcalls : ∀ site ∈ Stmt.callSitesIn symbols scope block,
      Agree symbols returns returns' site.1 site.2) (ht : base ≤ t.labels) :
    BlockCode ⟨symbols, returns'⟩ depth (loop.map (LoopLabels.rename f)) scope (t.rename f) block
      (code.map (Instruction.rename f)) (u.rename f) := by
  match h with
  | .nil => exact .nil
  | .cons hstmt hrest =>
      rw [Stmt.callSitesIn] at hcalls
      have hu := Nat.le_trans ht hstmt.balanced.1
      rw [List.map_append]
      exact .cons
        (hstmt.relocated hf (fun site hsite => hcalls site (List.mem_append_left _ hsite)) ht)
        (hrest.relocated hf (fun site hsite => hcalls site (List.mem_append_right _ hsite)) hu)

end

/-! ## Bodies -/

lemma rename_closeBody (f : Nat → Nat) (ret : Ty) (code : Code) :
    (closeBody ret code).rename f = closeBody ret (code.rename f) := by
  have same : (code.rename f).endsWithReturn = code.endsWithReturn := by
    rw [Code.endsWithReturn, Code.endsWithReturn, Code.rename, Array.back?_map]
    cases code.back? <;> simp
  rw [closeBody, closeBody, same]
  split
  · simp [Code.rename, Instruction.rename]
  · rfl

/-- **The code of a body, from other labels and with other return types known.** -/
theorem BodyCode.relocated {shared : Shared} {slots : Slots} {body : List Stmt} {ret : Ty}
    {code : Code} {issued : Nat}
    (h : BodyCode symbols shared slots body scope ret code issued)
    (hf : Slides f shared.labels.issued)
    (hcalls : ∀ site ∈ Stmt.callSitesIn symbols scope body,
      Agree symbols shared.returns returns' site.1 site.2) :
    BodyCode symbols ⟨⟨f shared.labels.issued⟩, returns'⟩ slots body scope ret (code.rename f)
      (f issued) := by
  cases h with
  | @mk code u hblock =>
      have moved := hblock.relocated hf hcalls (Nat.le_refl _)
      rw [rename_closeBody, Code.rename, List.map_toArray]
      exact BodyCode.mk (u := u.rename f) moved

lemma BodyCode.unique {shared : Shared} {slots : Slots} {body : List Stmt} {ret : Ty}
    {code code' : Code} {issued issued' : Nat}
    (h : BodyCode symbols shared slots body scope ret code issued)
    (h' : BodyCode symbols shared slots body scope ret code' issued') : code = code' := by
  have hcode := lowerBody_ok_iff.2 ⟨issued, h, rfl⟩
  rw [lowerBody_ok_iff.2 ⟨issued', h', rfl⟩, Except.ok.injEq, Prod.mk.injEq] at hcode
  exact hcode.1.symm

lemma slides_add (k base : Nat) : Slides (· + k) base := by
  intro n _
  exact Nat.add_right_comm n 1 k

lemma slides_sub (k : Nat) : Slides (· - k) k := by
  intro n hn
  exact Nat.sub_add_comm hn

section

variable {slots : Slots} {body : List Stmt} {ret : Ty} {code : Code} {issued : Nat}

/-- **A body that can be lowered on its own can be lowered anywhere**, with its labels raised. -/
theorem BodyCode.raised (h : BodyCode symbols ⟨{}, returns⟩ slots body scope ret code issued)
    (shared : Shared) (hcalls : ∀ site ∈ Stmt.callSitesIn symbols scope body,
      Agree symbols returns shared.returns site.1 site.2) :
    BodyCode symbols shared slots body scope ret (code.rename (· + shared.labels.issued))
      (issued + shared.labels.issued) := by
  have moved := h.relocated (slides_add shared.labels.issued 0) hcalls
  rw [Nat.zero_add] at moved
  exact moved

/-- **A body that is lowered anywhere can be lowered on its own**, and its labels are those,
raised. -/
theorem BodyCode.alone {shared : Shared}
    (h : BodyCode symbols shared slots body scope ret code issued)
    (hcalls : ∀ site ∈ Stmt.callSitesIn symbols scope body,
      Agree symbols shared.returns returns site.1 site.2) :
    ∃ own issued', BodyCode symbols ⟨{}, returns⟩ slots body scope ret own issued' ∧
      code = own.rename (· + shared.labels.issued) := by
  have moved := h.relocated (slides_sub shared.labels.issued) hcalls
  rw [Nat.sub_self] at moved
  refine ⟨_, _, moved, ?_⟩
  exact h.unique (moved.raised shared fun site hsite => (hcalls site hsite).symm)

end

end Lowering

end StackBackend
