import StackBackend.Proofs.Meaning.Computation

/-!
# Lowered expressions over single values

Numbers, truth values and texts are data, and direct evaluation of an expression over them is a case
of that of an expression over data.  So is what its code does.

* `Holds` — the variables' slots hold the values of a store;
* `Yields` — what is shown of a piece of code: it leads to a value pushed, in slots that hold the
  store after evaluation, or to an instruction that fails for the reason evaluation has;
* `eval_alike` — the two ways to evaluate agree;
* `yields_expr` — the code of an expression yields what `eval` gives.

Variables that hold lists or function pointers do not matter here, and need not hold anything: they
are left out of the context (`scalars`).
-/

namespace StackBackend.Direct

open Lowering Typing

/-! ## Values and stores on the machine -/

/-- The slots of the variables hold the values of a store, each of its variable's type. -/
def Holds (Γ : Context) (slots : Slots) (locals : Array Value) (store : Store) : Prop :=
  ∀ name ty, Γ.vars name = some ty → scalarTy ty = true → (store name).ty = ty ∧
    ∀ slot, slots.get? (.var name) = some slot →
      Represents (locals[slot]?.getD .null) (store name)

/-- From a point, the code leads to the place `pc` with the value on top of `stack`, or fails. -/
def Yields (s : Site) (Γ : Context) (slots : Slots) (p : Point) (pc : Nat) (stack : List Value)
    (ty : Ty) : Except Failure (Scalar × Store) → Prop
  | .ok (v, store) => v.ty = ty ∧ ∃ n value locals w, Represents value v ∧
      Holds Γ slots locals store ∧ w.printed = p.world.printed ∧
      s.Steps p n ⟨pc, value :: stack, locals, w⟩
  | .error why => ∃ n q fault, s.Steps p n q ∧ q.world.printed = p.world.printed ∧
      s.Fails q fault ∧ Raises why fault

/-! ## Types of scalar expressions -/

/-- A well-typed expression of the fragment has a scalar type. -/
lemma scalarTy_of_typed {Γ : Context} {scope : ScopeId} {e : Expr} (ht : Γ.typed scope e = true)
    (hs : scalarExpr e = true) : scalarTy e.ty = true := by
  cases e with
  | int note _ | bool note _ | str note _ =>
      simp only [Context.typed, decide_eq_true_eq] at ht
      show scalarTy note.ty = true
      rw [ht]
      rfl
  | ident note _ => simpa [scalarExpr, Expr.ty, Expr.note] using hs
  | binary note op lhs rhs =>
      simp only [Context.typed, Bool.and_eq_true, decide_eq_true_eq] at ht
      show scalarTy note.ty = true
      rcases resultTy?_eq_some ht.1.1 with ⟨-, -, -, hty⟩ | ⟨_, _, -, -, hty⟩ <;> rw [hty] <;> rfl
  | unary note op operand =>
      simp only [Context.typed, Bool.and_eq_true] at ht
      show scalarTy note.ty = true
      cases op <;> simp only [unaryTyped, Bool.and_eq_true, decide_eq_true_eq] at ht <;>
        simp [ht, scalarTy]
  | len note operand | chop note operand =>
      simp only [Context.typed, Bool.and_eq_true, decide_eq_true_eq] at ht
      show scalarTy note.ty = true
      simp [ht, scalarTy]
  | _ => simp [scalarExpr] at hs

/-- A context with those variables alone that hold single values. -/
def scalars (Γ : Context) : Context :=
  { Γ with vars := fun name => (Γ.vars name).filter scalarTy }

/-- Expressions over single values are expressions over data, and well typed without other
variables. -/
lemma typed_scalars {Γ : Context} {scope : ScopeId} (e : Expr) (ht : Γ.typed scope e = true)
    (hs : scalarExpr e = true) :
    (scalars Γ).typed scope e = true ∧ Data.isData Γ.symbols scope e = true := by
  match e with
  | .int _ _ | .bool _ _ | .str _ _ => exact ⟨by simpa [Context.typed] using ht, rfl⟩
  | .ident note name =>
      simp only [Context.typed, decide_eq_true_eq] at ht ⊢
      rcases Context.nameTy?_eq_some ht with ⟨_, signature, -, -, hfn⟩ | ⟨v, hl, hv, hvars⟩
      · simp [scalarExpr, hfn, scalarTy] at hs
      · have kept : (scalars Γ).vars name = some note.ty := by
          simpa [scalars, hvars, scalarExpr] using hs
        refine ⟨?_, by simp [Data.isData, SymbolTable.functionBinding?, hl, Binding.fn?]⟩
        simpa [Context.nameTy?, scalars, hl, hv, hvars] using kept
  | .binary _ _ lhs rhs =>
      simp only [Context.typed, Bool.and_eq_true] at ht ⊢
      simp only [scalarExpr, Bool.and_eq_true] at hs
      obtain ⟨ht₁, hdata₁⟩ := typed_scalars lhs ht.1.2 hs.1
      obtain ⟨ht₂, hdata₂⟩ := typed_scalars rhs ht.2 hs.2
      exact ⟨⟨⟨ht.1.1, ht₁⟩, ht₂⟩,
        by simp [Data.isData, scalarTy_of_typed ht.1.2 hs.1, hdata₁, hdata₂]⟩
  | .unary _ _ operand | .len _ operand | .chop _ operand =>
      simp only [Context.typed, Bool.and_eq_true] at ht ⊢
      obtain ⟨ht', hdata⟩ := typed_scalars operand ht.2 hs
      exact ⟨⟨ht.1, ht'⟩, hdata⟩
  | .list _ _ | .call _ _ _ | .index _ _ _ | .fnPtr _ _ => simp [scalarExpr] at hs

/-! ## Stores -/

/-- A store of single values, as one of data. -/
def embed (store : Store) : Data.Store := fun name => .scalar (store name)

lemma embed_update (store : Store) (name : String) (v : Scalar) :
    Function.update (embed store) name (.scalar v) = embed (Function.update store name v) := by
  funext other
  by_cases same : other = name
  · subst same
    simp [embed]
  · simp [embed, same]

/-- A store of single values is held as one of data, whatever is on the stack and on the heap. -/
lemma holds_iff {Γ : Context} {slots : Slots} {locals : Array Value} {store : Store} (pc : Nat)
    (stack : List Value) (w : World) : Holds Γ slots locals store ↔
      Data.Holds (scalars Γ) slots ∅ ⟨pc, stack, locals, w⟩ (embed store) := by
  constructor
  · intro h
    refine ⟨fun name ty hname => ?_, by simp⟩
    obtain ⟨hvars, hscalar⟩ : Γ.vars name = some ty ∧ scalarTy ty = true := by
      simpa [scalars, Option.filter_eq_some_iff] using hname
    obtain ⟨hty, held⟩ := h name ty hvars hscalar
    exact ⟨Data.hasTy_scalar.2 hty.symm, fun slot hslot => Data.denotes_scalar.2 (held slot hslot)⟩
  · intro h name ty hname hscalar
    have kept : (scalars Γ).vars name = some ty := by simpa [scalars, hname] using hscalar
    obtain ⟨hty, held⟩ := h.vars name ty kept
    exact ⟨(Data.hasTy_scalar.1 hty).symm, fun slot hslot =>
      Data.denotes_scalar.1 (held slot hslot)⟩

/-- Assigning to a variable keeps slots and store in step. -/
lemma Holds.update {Γ : Context} {slots : Slots} {locals : Array Value} {store : Store}
    (h : Holds Γ slots locals store) {name : String} {slot : Nat} {v : Scalar} {value : Value}
    (hname : Γ.vars name = some v.ty) (hslot : slots.get? (.var name) = some slot)
    (hvalue : Represents value v) :
    Holds Γ slots (writeLocal locals slot value) (Function.update store name v) := by
  have kept : (scalars Γ).vars name = some v.ty := by
    cases v <;> simp [scalars, hname, Scalar.ty, scalarTy]
  rw [holds_iff 0 [] {}] at h ⊢
  rw [← embed_update]
  exact h.update kept hslot (.scalar v) (.scalar hvalue) rfl rfl

/-! ## Evaluation -/

/-- The results of the two ways to evaluate agree. -/
def Alike :
    Except Failure (Scalar × Store) → EStateM.Result Data.Mishap Data.Store Data.Datum → Prop
  | .ok (v, store), .ok d store' => d = .scalar v ∧ store' = embed store
  | .error why, .error why' _ => why' = .failed why
  | _, _ => False

lemma Alike.bind {x : Except Failure (Scalar × Store)} {y : Data.Eval Data.Datum}
    {f : Scalar × Store → Except Failure (Scalar × Store)} {g : Data.Datum → Data.Eval Data.Datum}
    {store : Data.Store} (h : Alike x (y store))
    (hnext : ∀ v store, Alike (f (v, store)) (g (.scalar v) (embed store))) :
    Alike (x >>= f) ((y >>= g) store) := by
  show Alike (x >>= f) (EStateM.bind y g store)
  rw [EStateM.bind]
  cases hy : y store with
  | ok d store' =>
      rw [hy] at h
      match x, h with
      | .ok (v, store), ⟨hd, hstore⟩ =>
          subst hd hstore
          exact hnext v store
  | error why store' =>
      rw [hy] at h
      match x, h with
      | .error why, h => exact h

/-- The last step of an operator. -/
lemma alike_settle (result : Except Failure Scalar) (store : Store) :
    Alike (do let v ← result; .ok (v, store))
    (Data.settle (Data.ofScalar result) (embed store)) := by
  cases result with
  | ok v => exact ⟨rfl, rfl⟩
  | error why => exact rfl

lemma count_alike (op : UnaryOp) (target : Expr) (store : Store) :
    Alike (count op target store) (Data.count op target (embed store)) := by
  unfold count Data.count
  cases target.ident? with
  | none => exact rfl
  | some name =>
      simp only [embed]
      cases store name with
      | int a => exact ⟨rfl, embed_update store name _⟩
      | bool _ | text _ => exact rfl

/-- **The two ways to evaluate agree.** -/
theorem eval_alike (e : Expr) (hs : scalarExpr e = true) (store : Store) :
    Alike (eval e store) (Data.eval e (embed store)) := by
  match e with
  | .int _ _ | .bool _ _ | .str _ _ | .ident _ _ =>
      rw [eval, Data.eval]
      exact ⟨rfl, rfl⟩
  | .binary _ op lhs rhs =>
      simp only [scalarExpr, Bool.and_eq_true] at hs
      rw [eval, Data.eval]
      refine (eval_alike lhs hs.1 store).bind fun a store => ?_
      exact (eval_alike rhs hs.2 store).bind fun b store => alike_settle (combine op a b) store
  | .unary _ .neg operand =>
      rw [eval, Data.eval]
      exact (eval_alike operand hs store).bind fun a store => alike_settle (negate a) store
  | .unary _ .not operand =>
      rw [eval, Data.eval]
      exact (eval_alike operand hs store).bind fun a store => alike_settle (invert a) store
  | .unary _ .inc operand | .unary _ .dec operand =>
      rw [eval, Data.eval]
      · exact count_alike _ operand store
      all_goals simp
  | .len _ operand =>
      rw [eval, Data.eval]
      exact (eval_alike operand hs store).bind fun a store => alike_settle (lengthOf a) store
  | .chop _ operand =>
      rw [eval, Data.eval]
      exact (eval_alike operand hs store).bind fun a store => alike_settle (chopped a) store
  | .list _ _ | .call _ _ _ | .index _ _ _ | .fnPtr _ _ => simp [scalarExpr] at hs

/-! ## Code -/

section Code

variable {s : Site} {Γ : Context} {slots : Slots} {env : Env} {scope : ScopeId}

/-- What is shown of code over data is shown of code over single values. -/
lemma yields_of_alike {p : Point} {literals pc : Nat} {stack : List Value} {ty : Ty}
    {result : Except Failure (Scalar × Store)}
    {result' : EStateM.Result Data.Mishap Data.Store Data.Datum} (halike : Alike result result')
    (h : Data.Yields s (scalars Γ) slots ∅ literals p pc stack ty result') :
    Yields s Γ slots p pc stack ty result := by
  cases result' with
  | ok d store' =>
      match result, halike with
      | .ok (v, store), ⟨hd, hstore⟩ =>
          subst hd hstore
          obtain ⟨hty, n, value, locals, w, hsteps, hkeeps, hvalue, hholds⟩ := h
          exact ⟨(Data.hasTy_scalar.1 hty).symm, n, value, locals, w, Data.denotes_scalar.1 hvalue,
            (holds_iff _ _ _).2 hholds, hkeeps.printed, hsteps⟩
  | error why' store' =>
      match result, halike with
      | .error why, hwhy =>
          subst hwhy
          obtain ⟨n, q, fault, hsteps, hkeeps, -, hfails, hraises⟩ := h
          cases hraises with
          | failed hraises => exact ⟨n, q, fault, hsteps, hkeeps.printed, hfails, hraises⟩

/-- **The code of an expression yields what evaluation gives.** -/
theorem yields_expr {t u : Supply} {e : Expr} {depth : Nat} {code : List Instruction}
    (h : ExprCode env scope depth t e code u) (hΓ : env.symbols = Γ.symbols)
    (ht : Γ.typed scope e = true) (hs : scalarExpr e = true) (hslots : u.slots.Within slots)
    {pc : Nat} (hcode : s.Has pc code) {locals : Array Value} {store : Store}
    (hholds : Holds Γ slots locals store) (stack : List Value) (w : World) :
    Yields s Γ slots ⟨pc, stack, locals, w⟩ (pc + code.length) stack e.ty (eval e store) := by
  have agrees : env.symbols = (scalars Γ).symbols := hΓ
  obtain ⟨ht', hdata⟩ := typed_scalars e ht hs
  exact yields_of_alike (eval_alike e hs store) (Data.yields_expr h agrees ht' hdata hslots
    (Nat.le_refl _) hcode ((holds_iff pc stack w).1 hholds))

end Code

end StackBackend.Direct
