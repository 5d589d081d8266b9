import StackBackend.Proofs.Lowering.Shape.Statement
import StackBackend.Proofs.StackProfile.Flow

/-!
# Lowered code keeps its depths

The code of an expression leaves one operand more than it found, wherever it stands, and the code
of a statement none.  `Balanced loop a b d code e` says so of a piece of code: depths flow through
it from `d` to `e`, it defines the labels from `a` up to `b` once each, and it jumps to them at
their depths, or to the two labels of the loop around it with an empty stack.

* `ExprCode.balanced` — expressions, at any depth;
* `StmtCode.balanced`, `BlockCode.balanced` — statements, on an empty stack.

Pieces that follow each other take their labels from adjoining ranges, so `Balanced.append` is all
that most constructs need; a conditional and a loop, whose labels lie around their parts, have a
lemma of their own.
-/

namespace StackBackend.Lowering

open StackProfile Instruction

/-! ## Balanced code -/

/-- A jump to the loop around, on an empty stack. -/
def LoopJump (loop : Option LoopLabels) (jump : LabelDepth) : Prop :=
  ∃ labels, loop = some labels ∧ (jump = (labels.start, 0) ∨ jump = (labels.exit, 0))

/-- `labels` are those from `a` up to `b`, once each. -/
def Ranges (a b : Nat) (labels : List LabelDepth) : Prop :=
  ∀ n : Nat, (labels.map Prod.fst).count ⟨n⟩ = if a ≤ n ∧ n < b then 1 else 0

lemma ranges_nil (a : Nat) : Ranges a a [] := by
  intro n
  have : ¬ (a ≤ n ∧ n < a) := by omega
  simp [this]

lemma Ranges.append {a b c : Nat} {labels labels' : List LabelDepth} (hab : a ≤ b) (hbc : b ≤ c)
    (h : Ranges a b labels) (h' : Ranges b c labels') : Ranges a c (labels ++ labels') := by
  intro n
  rw [List.map_append, List.count_append, h n, h' n]
  split <;> split <;> split <;> omega

lemma Ranges.nodup {a b : Nat} {labels : List LabelDepth} (h : Ranges a b labels) :
    (labels.map Prod.fst).Nodup := by
  rw [List.nodup_iff_count]
  rintro ⟨n⟩
  rw [h n]
  split <;> omega

/-- **Code that keeps its depths and its labels to itself.** -/
def Balanced (loop : Option LoopLabels) (a b d : Nat) (code : List Instruction) (e : Nat) : Prop :=
  a ≤ b ∧ ∃ jumps labels, Flow d code jumps labels e ∧ Ranges a b labels ∧
    ∀ jump ∈ jumps, jump ∈ labels ∨ LoopJump loop jump

lemma Balanced.straight {loop : Option LoopLabels} {a d e : Nat} {code : List Instruction}
    (h : straightDepth? d code = some e) : Balanced loop a a d code e :=
  ⟨Nat.le_refl a, [], [], .straight h, ranges_nil a, by simp⟩

lemma Balanced.append {loop : Option LoopLabels} {a b c d m e : Nat} {code more : List Instruction}
    (h : Balanced loop a b d code m) (h' : Balanced loop b c m more e) :
    Balanced loop a c d (code ++ more) e := by
  obtain ⟨hab, jumps, labels, hflow, hranges, hjumps⟩ := h
  obtain ⟨hbc, jumps', labels', hflow', hranges', hjumps'⟩ := h'
  refine ⟨Nat.le_trans hab hbc, _, _, hflow.append hflow', hranges.append hab hbc hranges', ?_⟩
  intro jump hjump
  rcases List.mem_append.1 hjump with hjump | hjump
  · exact (hjumps jump hjump).imp_left (List.mem_append_left _)
  · exact (hjumps' jump hjump).imp_left (List.mem_append_right _)

/-- The labels of balanced code can be located. -/
lemma Balanced.exists_labelTable {loop : Option LoopLabels} {a b d e : Nat} {code : Code}
    (h : Balanced loop a b d code.toList e) : ∃ labels, labelTable code = .ok labels := by
  obtain ⟨-, jumps, labels, hflow, hranges, -⟩ := h
  refine labelTable_of_nodup ?_
  rw [hflow.definedLabels]
  exact hranges.nodup

/-! ## Expressions -/

lemma straight_closureCode (name : String) (d : Nat) :
    straightDepth? d (closureCode name) = some (d + 1) := rfl

lemma straight_arrayCode (slot d : Nat) : straightDepth? d (arrayCode slot) = some d := rfl

lemma straight_wrapCode (slot d : Nat) : straightDepth? d (wrapCode slot) = some (d + 1) := rfl

lemma straight_downcast (ty : Ty) (d : Nat) :
    straightDepth? (d + 1) (downcast ty) = some (d + 1) := by
  cases ty <;> rfl

lemma straight_unboxing (ty : Ty) (d : Nat) :
    straightDepth? (d + 1) (unboxing ty) = some (d + 1) := by
  cases ty <;> rfl

lemma straight_elementCode (ty : Ty) (d : Nat) :
    straightDepth? (d + 1) (elementCode ty) = some (d + 1) := by
  cases ty <;> rfl

lemma straight_resultCode (ty : Ty) (d : Nat) :
    straightDepth? (d + 1) (resultCode ty) = some (d + if ty.isVoid then 0 else 1) := by
  cases ty <;> rfl

/-- What stands below an element while it is made: the wrapper of a copy, twice. -/
def copyDepth (ty : Ty) : Nat := if ty.isList then 2 else 0

lemma straight_openCopy (ty : Ty) (d : Nat) :
    straightDepth? d (openCopy ty) = some (d + copyDepth ty) := by
  cases ty <;> rfl

lemma straight_closeCopy (ty : Ty) (d : Nat) :
    straightDepth? (d + copyDepth ty + 1) (closeCopy ty) = some (d + 1) := by
  cases ty <;> rfl

/-- A branch that takes `k` operands becomes a truth value in their place. -/
lemma Balanced.truth {loop : Option LoopLabels} {n k d : Nat} {branch : Label → Instruction}
    (htarget : ∀ l, (branch l).target? = some l) (hends : ∀ l, (branch l).endsBlock = false)
    (hpops : ∀ l, (branch l).pops = k) (hpushes : ∀ l, (branch l).pushes = 0) :
    Balanced loop n (n + 2) (d + k) (truthCode branch n) (d + 1) := by
  have push : ∀ x : Int32,
      Flow d [.ldc (.int x), .callStatic .booleanValueOf] [] [] (d + 1) :=
    fun x => .straight rfl
  have otherwise := (Flow.branch (d := d) (htarget ⟨n⟩) (hends _) (hpops _) (hpushes _)).append
    (push 0) |>.append (Flow.jump ⟨n + 1⟩ (d + 1) d)
  have whole := (otherwise.append (Flow.label ⟨n⟩ d)).append (push 1) |>.append
    (Flow.label ⟨n + 1⟩ (d + 1))
  refine ⟨by omega, _, _, whole, ?_, ?_⟩
  · intro m
    simp only [List.append_nil, List.nil_append, List.cons_append, List.map_cons, List.map_nil,
      List.count_cons, List.count_nil]
    grind
  · intro jump hjump
    simp only [List.append_nil, List.cons_append, List.nil_append, List.mem_cons,
      List.not_mem_nil, or_false] at hjump
    rcases hjump with rfl | rfl <;> simp

lemma LeafCode.balanced {env : Env} {scope : ScopeId} {t u : Supply} {e : Expr}
    {code : List Instruction} (h : LeafCode env scope t e code u) (loop : Option LoopLabels)
    (d : Nat) : Balanced loop t.labels u.labels d code (d + 1) := by
  cases h with
  | int | bool | str => exact .straight rfl
  | fn _ | pointer => exact .straight (straight_closureCode _ d)
  | @var _ _ ty _ =>
      have pushed : ∀ slot, Balanced loop t.labels t.labels d [.load slot] (d + 1) :=
        fun slot => .straight rfl
      exact (pushed _).append (.straight (straight_downcast ty d))

lemma UnaryCode.balanced {t u : Supply} {e operand : Expr} {last : List Instruction}
    (h : UnaryCode t e operand last u) (loop : Option LoopLabels) (d : Nat) :
    Balanced loop t.labels u.labels (d + 1) last (d + 1) := by
  cases h with
  | neg _ | not _ | count _ _ _ _ | lenText _ | lenList _ | chop _ => exact .straight rfl

lemma BinaryCode.balanced {t u : Supply} {e lhs rhs : Expr} {middle last : List Instruction}
    (h : BinaryCode t e lhs rhs middle last u) (loop : Option LoopLabels) (d : Nat) :
    (∀ a, Balanced loop a a (d + 1) middle (d + 1)) ∧
      Balanced loop t.labels u.labels (d + 2) last (d + 1) := by
  have same : ∀ a, Balanced loop a a (d + 1) [] (d + 1) := fun a => .straight rfl
  cases h with
  | arith _ _ _ => exact ⟨fun a => .straight rfl, .straight rfl⟩
  | scalar _ _ =>
      refine ⟨fun a => .straight (straight_unboxing _ d),
        (Balanced.straight (straight_unboxing _ (d + 1))).append ?_⟩
      exact Balanced.truth (k := 2) (fun _ => rfl) (fun _ => rfl) (fun _ => rfl) (fun _ => rfl)
  | @text _ op _ _ _ =>
      have equal : Balanced loop t.labels t.labels (d + 2) [.callVirtual .stringEquals] (d + 1) :=
        .straight rfl
      refine ⟨same, equal.append ?_⟩
      cases op <;>
        exact Balanced.truth (k := 1) (fun _ => rfl) (fun _ => rfl) (fun _ => rfl) (fun _ => rfl)
  | identity _ _ =>
      exact ⟨same, Balanced.truth (k := 2) (fun _ => rfl) (fun _ => rfl) (fun _ => rfl)
        (fun _ => rfl)⟩
  | index _ _ =>
      have taken : Balanced loop t.labels t.labels (d + 2)
          [.callVirtual .intValue, .callVirtual .listGet] (d + 1) := .straight rfl
      exact ⟨same, taken.append (.straight (straight_elementCode _ d))⟩

lemma CalleeCode.balanced {env : Env} {scope : ScopeId} {t u : Supply} {name : String}
    {code : List Instruction} (h : CalleeCode env scope t name code u) (loop : Option LoopLabels)
    (d : Nat) : Balanced loop t.labels u.labels d code (d + 1) := by
  cases h with
  | fn _ => exact .straight (straight_closureCode _ d)
  | var _ => exact .straight rfl

mutual

/-- **The code of an expression leaves its value, if it has one, and nothing else.** -/
theorem ExprCode.balanced {env : Env} {scope : ScopeId} {depth : Nat} {t u : Supply} {e : Expr}
    {code : List Instruction} (h : ExprCode env scope depth t e code u) (loop : Option LoopLabels)
    (d : Nat) : Balanced loop t.labels u.labels d code
      (d + if producesValue env scope e then 1 else 0) := by
  match h with
  | .leaf hleaf =>
      have value : producesValue env scope e = true := by cases hleaf <;> rfl
      simpa [value] using hleaf.balanced loop d
  | .unary hv hoperand hcode =>
      have value : producesValue env scope e = true := by cases hcode <;> rfl
      have operand := hoperand.balanced loop d
      simp only [hv, value, if_true] at operand ⊢
      exact operand.append (hcode.balanced loop d)
  | .binary hv hlhs hv' hrhs hcode =>
      have value : producesValue env scope e = true := by cases hcode <;> rfl
      have first := hlhs.balanced loop d
      have second := hrhs.balanced loop (d + 1)
      obtain ⟨middle, last⟩ := hcode.balanced loop d
      simp only [hv, hv', value, if_true] at first second ⊢
      exact ((first.append (middle _)).append second).append last
  | .list _ helements =>
      have made : ∀ slot, Balanced loop t.labels t.labels d (arrayCode slot) d :=
        fun slot => .straight (straight_arrayCode slot d)
      exact ((made _).append (helements.balanced loop d)).append (.straight (straight_wrapCode _ d))
  | @ExprCode.call _ _ _ _ u _ note note' name args _ _ hfirst _ hargs =>
      have made : ∀ slot, Balanced loop u.labels u.labels (d + 1) (arrayCode slot) (d + 1) :=
        fun slot => .straight (straight_arrayCode slot (d + 1))
      have invoked : ∀ a slot, Balanced loop a a (d + 1)
          [.load slot, .callVirtual .closureInvoke] (d + 1) := fun a slot => .straight rfl
      have result : ∀ a, Balanced loop a a (d + 1) (resultCode (callType env scope name note.ty))
          (d + if producesValue env scope (.call note (.ident note' name) args) then 1 else 0) := by
        intro a
        refine .straight ?_
        rw [straight_resultCode]
        by_cases hvoid : (callType env scope name note.ty).isVoid <;>
          simp [producesValue, Expr.ident?, hvoid]
      exact ((((hfirst.balanced loop d).append (made _)).append
        (hargs.balanced loop (d + 1))).append (invoked _ _)).append (result _)

theorem ElementsCode.balanced {env : Env} {scope : ScopeId} {depth slot : Nat} {t u : Supply}
    {es : List Expr} {code : List Instruction} (h : ElementsCode env scope depth slot t es code u)
    (loop : Option LoopLabels) (d : Nat) : Balanced loop t.labels u.labels d code d := by
  match h with
  | .nil => exact .straight rfl
  | @ElementsCode.cons _ _ _ _ _ _ _ e _ _ _ hv he hrest =>
      have loaded : Balanced loop t.labels t.labels d [.load slot] (d + 1) := .straight rfl
      have added : ∀ a, Balanced loop a a (d + 2) [.callVirtual .arrayAdd, .pop] d :=
        fun a => .straight rfl
      have element := he.balanced loop (d + 1 + copyDepth e.ty)
      simp only [hv, if_true] at element
      have copied := ((Balanced.straight (straight_openCopy e.ty (d + 1))).append element).append
        (.straight (straight_closeCopy e.ty (d + 1)))
      have whole := ((loaded.append copied).append (added _)).append (hrest.balanced loop d)
      simpa using whole

end

lemma ValueCode.balanced {env : Env} {scope : ScopeId} {depth : Nat} {t u : Supply} {e : Expr}
    {code : List Instruction} (h : ValueCode env scope depth t e code u)
    (loop : Option LoopLabels) (d : Nat) : Balanced loop t.labels u.labels d code (d + 1) := by
  simpa [h.1] using h.2.balanced loop d

/-! ## Statements -/

/-- Code that flows without labels, and jumps to the loop around it at most. -/
lemma Balanced.leaving {loop : Option LoopLabels} {a d e : Nat} {code : List Instruction}
    {jumps : List LabelDepth} (h : Flow d code jumps [] e)
    (hjumps : ∀ jump ∈ jumps, LoopJump loop jump) : Balanced loop a a d code e :=
  ⟨Nat.le_refl a, jumps, [], h, ranges_nil a, fun jump hjump => .inr (hjumps jump hjump)⟩

lemma PlainCode.balanced {env : Env} {depth : Nat} {loop : Option LoopLabels} {scope : ScopeId}
    {t u : Supply} {stmt : Stmt} {code : List Instruction}
    (h : PlainCode env depth loop scope t stmt code u) :
    Balanced loop t.labels u.labels 0 code 0 := by
  cases h with
  | assign _ _ hvalue => exact (hvalue.balanced loop 0).append (.straight rfl)
  | assignElement _ _ _ _ hindex hvalue =>
      have loaded : ∀ slot, Balanced loop t.labels t.labels 0
          [.load slot, .cast ClassName.list] 1 := fun slot => .straight rfl
      have unboxed : ∀ a, Balanced loop a a 2 [.callVirtual .intValue] 2 := fun a => .straight rfl
      exact ((((loaded _).append (hindex.balanced loop 1)).append (unboxed _)).append
        (hvalue.balanced loop 2)).append (.straight rfl)
  | exitLoop hloop =>
      refine .leaving (Flow.jump _ 0 0) fun jump hjump => ⟨_, hloop, .inr ?_⟩
      simpa using hjump
  | nextLoop hloop =>
      refine .leaving (Flow.jump _ 0 0) fun jump hjump => ⟨_, hloop, .inl ?_⟩
      simpa using hjump
  | ret => exact .leaving (Flow.ret 0) (by simp)
  | retValue hvalue =>
      exact (hvalue.balanced loop 0).append (.leaving (Flow.retValue 0) (by simp))
  | put hvalue _ =>
      have console : Balanced loop t.labels t.labels 0 [.getStatic consoleField] 1 := .straight rfl
      have printed : ∀ what, Balanced loop u.labels u.labels 2
          [.callVirtual (.println what)] 0 := by
        intro what
        cases what <;> exact .straight rfl
      exact (((console.append (hvalue.balanced loop 1)).append
        (.straight (straight_downcast _ 1))).append (.straight (straight_unboxing _ 1))).append
        (printed _)
  | eval hexpr =>
      refine (hexpr.balanced loop 0).append (.straight ?_)
      split <;> rfl

/-- A conditional: labels `n` and `n + 1`, then those of its two branches. -/
lemma Balanced.conditional {loop : Option LoopLabels} {n b c : Nat}
    {second third : List Instruction} (hsecond : Balanced loop (n + 2) b 0 second 0)
    (hthird : Balanced loop b c 0 third 0) :
    Balanced loop n c 1 (branchCode n second third) 0 := by
  obtain ⟨hnb, jumps, labels, hflow, hranges, hjumps⟩ := hsecond
  obtain ⟨hbc, jumps', labels', hflow', hranges', hjumps'⟩ := hthird
  have unboxed : Flow 1 [.callVirtual .booleanValue] [] [] 1 := .straight rfl
  have tested : Flow 1 [.ifZero ⟨n⟩] [(⟨n⟩, 0)] [] 0 :=
    Flow.branch (k := 1) (d := 0) rfl rfl rfl rfl
  obtain ⟨skips, hskip, hskips⟩ : ∃ skips, Flow 0 (skipCode second ⟨n + 1⟩) skips [] 0 ∧
      skips ⊆ [(⟨n + 1⟩, 0)] := by
    rw [skipCode]
    split
    · exact ⟨[], .nil, by simp⟩
    · exact ⟨_, Flow.jump _ 0 0, fun _ h => h⟩
  have whole :=
    (((((unboxed.append tested).append hflow).append hskip).append (Flow.label ⟨n⟩ 0)).append
      hflow').append (Flow.label ⟨n + 1⟩ 0)
  refine ⟨by omega, _, _, whole, ?_, ?_⟩
  · intro m
    have h1 := hranges m
    have h2 := hranges' m
    simp only [List.append_nil, List.nil_append, List.map_append, List.map_cons, List.map_nil,
      List.count_append, List.count_cons, List.count_nil, h1, h2]
    grind
  · intro jump hjump
    have hskips' := fun h : jump ∈ skips => List.mem_singleton.1 (hskips h)
    have h1 := hjumps jump
    have h2 := hjumps' jump
    simp only [List.mem_append, List.mem_singleton, List.append_nil, List.nil_append] at hjump ⊢
    grind

/-- A loop: labels `n` and `n + 1`, then those of its body, which may jump to the two. -/
lemma Balanced.repeated {loop : Option LoopLabels} {n b : Nat} {code : List Instruction}
    (h : Balanced (some ⟨⟨n⟩, ⟨n + 1⟩⟩) (n + 2) b 0 code 0) :
    Balanced loop n b 0 (Instruction.label ⟨n⟩ :: code ++ [.jump ⟨n⟩, .label ⟨n + 1⟩]) 0 := by
  obtain ⟨hnb, jumps, labels, hflow, hranges, hjumps⟩ := h
  have whole := (((Flow.label ⟨n⟩ 0).append hflow).append (Flow.jump ⟨n⟩ 0 0)).append
    (Flow.label ⟨n + 1⟩ 0)
  refine ⟨by omega, _, _, by simpa using whole, ?_, ?_⟩
  · intro m
    have h1 := hranges m
    simp only [List.map_append, List.map_cons, List.map_nil, List.count_append, List.count_cons,
      List.count_nil, h1]
    grind
  · intro jump hjump
    have h1 := hjumps jump
    simp only [LoopJump, Option.some.injEq, exists_eq_left'] at h1
    simp only [List.mem_append, List.mem_singleton] at hjump ⊢
    grind

mutual

/-- **The code of a statement keeps the stack empty.** -/
theorem StmtCode.balanced {env : Env} {depth : Nat} {loop : Option LoopLabels} {scope : ScopeId}
    {t u : Supply} {stmt : Stmt} {code : List Instruction}
    (h : StmtCode env depth loop scope t stmt code u) :
    Balanced loop t.labels u.labels 0 code 0 := by
  match h with
  | .plain hplain => exact hplain.balanced
  | .branch _ hcond hthen helse =>
      rw [append_branchCode]
      exact (hcond.balanced loop 0).append (.conditional hthen.balanced helse.balanced)
  | .loop hbody => exact .repeated hbody.balanced

theorem BlockCode.balanced {env : Env} {depth : Nat} {loop : Option LoopLabels} {scope : ScopeId}
    {t u : Supply} {block : List Stmt} {code : List Instruction}
    (h : BlockCode env depth loop scope t block code u) :
    Balanced loop t.labels u.labels 0 code 0 := by
  match h with
  | .nil => exact .straight rfl
  | .cons hstmt hrest => exact hstmt.balanced.append hrest.balanced

end

end StackBackend.Lowering
