import StackBackend.Proofs.Meaning.Expression

/-!
# Lowered statements do what direct execution does

The code of a well-typed block over numbers, truth values and texts takes the machine where direct
execution takes the store.

* `Shows` — a point of the machine shows a snapshot: no operands, the store in the slots, the lines
  printed;
* `Lands` — what is shown of a piece of code, one clause for each way execution ends.  Falling
  through leads to the place behind the code, `break` and `next` to the labels of the loop around,
  a return and a failure to the instruction that ends the run, and execution that is still running
  after so many rounds leads at least as many steps on;
* `lands_stmt`, `lands_block` — the code of statements and blocks lands where direct execution ends.

A loop is an induction on the rounds (`lands_loop`): every round begins at the loop's first label,
which is a step, so rounds are paid for in steps.  A conditional whose first branch ends in a return
has no jump over the second; `not_falls_of_endsInReturn` says that none is missed.
-/

namespace StackBackend.Direct

open Lowering Typing

section Lands

variable (s : Site) (Γ : Context) (slots : Slots) (base : List String)

/-- A point shows a snapshot, `base` being what was printed before. -/
structure Shows (q : Point) (r : Snapshot) : Prop where
  stack : q.stack = []
  holds : Holds Γ slots q.locals r.store
  printed : q.world.printed.toList = base ++ r.printed

/-- Steps lead from a point to a place where a snapshot is shown. -/
def Reaches (p : Point) (pc : Nat) (r : Snapshot) : Prop :=
  ∃ n q, s.Steps p n q ∧ q.pc = pc ∧ Shows Γ slots base q r

/-- **Where a piece of code leads**: `pc` is the place behind it. -/
def Lands (fuel : Nat) (loop : Option LoopLabels) (p : Point) (pc : Nat) :
    Ending × Snapshot → Prop
  | (.falls, r) => Reaches s Γ slots base p pc r
  | (.breaks, r) => ∃ labels, loop = some labels ∧ ∀ place,
      s.code[place]? = some (.label labels.exit) → Reaches s Γ slots base p place r
  | (.restarts, r) => ∃ labels, loop = some labels ∧ ∀ place,
      s.code[place]? = some (.label labels.start) → Reaches s Γ slots base p place r
  | (.returns v, r) => ∃ n q result, s.Steps p n q ∧ Holds Γ slots q.locals r.store ∧
      q.world.printed.toList = base ++ r.printed ∧ Option.Rel Represents result v ∧
      Machine.Stops s.classFile (s.machine q) 1
        (.ok { returned := result, exited := true, stack := [], locals := q.locals }) q.world
  | (.fails why, r) => ∃ n q fault, s.Steps p n q ∧ q.world.printed.toList = base ++ r.printed ∧
      s.Fails q fault ∧ Raises why fault
  | (.running, r) => ∃ n q, fuel ≤ n ∧ s.Steps p n q ∧ q.world.printed.toList = base ++ r.printed

variable {s Γ slots base} {fuel : Nat} {loop : Option LoopLabels}

lemma Reaches.after {p q : Point} {n pc : Nat} {r : Snapshot} (hsteps : s.Steps p n q)
    (h : Reaches s Γ slots base q pc r) : Reaches s Γ slots base p pc r := by
  obtain ⟨k, q', hk, hpc, hshows⟩ := h
  exact ⟨n + k, q', hsteps.trans hk, hpc, hshows⟩

/-- Steps in front of the code, which pay for so many rounds more. -/
lemma Lands.later {p q : Point} {n pc fuel' : Nat} {result : Ending × Snapshot}
    (hsteps : s.Steps p n q) (h : Lands s Γ slots base fuel loop q pc result)
    (hfuel : fuel' ≤ n + fuel) : Lands s Γ slots base fuel' loop p pc result := by
  obtain ⟨ending, r⟩ := result
  cases ending with
  | falls => exact Reaches.after hsteps h
  | breaks | restarts =>
      obtain ⟨labels, hloop, hreach⟩ := h
      exact ⟨labels, hloop, fun place hplace => (hreach place hplace).after hsteps⟩
  | returns v =>
      obtain ⟨k, q', result, hk, rest⟩ := h
      exact ⟨n + k, q', result, hsteps.trans hk, rest⟩
  | fails why =>
      obtain ⟨k, q', fault, hk, rest⟩ := h
      exact ⟨n + k, q', fault, hsteps.trans hk, rest⟩
  | running =>
      obtain ⟨k, q', hk, hsteps', rest⟩ := h
      exact ⟨n + k, q', by omega, hsteps.trans hsteps', rest⟩

lemma Lands.after {p q : Point} {n pc : Nat} {result : Ending × Snapshot}
    (hsteps : s.Steps p n q) (h : Lands s Γ slots base fuel loop q pc result) :
    Lands s Γ slots base fuel loop p pc result :=
  h.later hsteps (Nat.le_add_left fuel n)

/-- **A value, and then what is done with it.** -/
lemma Lands.value {p : Point} {pc pc' : Nat} {stack : List Value} {ty : Ty} {r : Snapshot}
    {result : Except Failure (Scalar × Store)} {next : Scalar → Snapshot → Ending × Snapshot}
    (h : Yields s Γ slots p pc stack ty result)
    (hprinted : p.world.printed.toList = base ++ r.printed)
    (hnext : ∀ v store value locals w, v.ty = ty → Represents value v →
      Holds Γ slots locals store → w.printed.toList = base ++ r.printed →
      Lands s Γ slots base fuel loop ⟨pc, value :: stack, locals, w⟩ pc'
        (next v { r with store })) :
    Lands s Γ slots base fuel loop p pc' (withValue r result next) := by
  match result, h with
  | .ok (v, store), ⟨hty, n, value, locals, w, hvalue, hholds, hsame, hsteps⟩ =>
      exact (hnext v store value locals w hty hvalue hholds (by rw [hsame, hprinted])).after hsteps
  | .error why, ⟨n, q, fault, hsteps, hsame, hfails, hraises⟩ =>
      exact ⟨n, q, fault, hsteps, by rw [hsame, hprinted], hfails, hraises⟩

/-- Falling through after some steps. -/
lemma Lands.falls {p : Point} {n pc pc' : Nat} {r : Snapshot} {locals : Array Value} {w : World}
    (hsteps : s.Steps p n ⟨pc', [], locals, w⟩) (hpc : pc' = pc)
    (hholds : Holds Γ slots locals r.store) (hprinted : w.printed.toList = base ++ r.printed) :
    Lands s Γ slots base fuel loop p pc (.falls, r) :=
  ⟨n, _, hsteps, hpc, rfl, hholds, hprinted⟩

end Lands

/-! ## Statements without a block -/

/-- The value an assignment stores is that of the expression lowered for it. -/
lemma eval_assignedValue (op : AssignOp) (note : Note) (name : String) (value : Expr)
    (store : Store) :
    eval (assignedValue op (.ident note name) value) store = assigned op name value store := by
  cases op <;> rfl

lemma scalar_assignedValue {op : AssignOp} {target value : Expr} (h : scalarExpr target = true)
    (h' : scalarExpr value = true) : scalarExpr (assignedValue op target value) = true := by
  cases op <;> simp [assignedValue, AssignOp.binary?, scalarExpr, h, h']

/-- A value on its way to the console: unboxed, if it is boxed. -/
def printedValue (value : Value) (v : Scalar) : Value :=
  if v.ty.isPrimitive then .raw v.raw else value

lemma step_printedValue {s : Site} {pc : Nat} {stack : List Value} {locals : Array Value}
    {w : World} {value : Value} {v : Scalar} (h : Represents value v)
    (hcode : s.Has pc (unboxing v.ty)) :
    ∃ n, s.Steps ⟨pc, value :: stack, locals, w⟩ n
      ⟨pc + (unboxing v.ty).length, printedValue value v :: stack, locals, w⟩ := by
  cases h with
  | int a => exact ⟨1, step_unboxing (.int a) rfl rfl hcode⟩
  | bool b => exact ⟨1, step_unboxing (.bool b) rfl rfl hcode⟩
  | text ident t => exact ⟨0, .refl s _⟩

/-- The machine prints the line of a value. -/
lemma perform_println {value : Value} {v : Scalar} (h : Represents value v) {what : Printed}
    (hwhat : printed? v.ty = some what) (heap : Heap) :
    (LibraryMethod.println what).perform heap .console [printedValue value v]
      = .ok (.print v.line, heap) := by
  cases h with
  | int a | text ident t =>
      cases hwhat
      rfl
  | bool b =>
      cases hwhat
      cases b <;> rfl

/-- The code behind a value that is printed. -/
lemma step_println {s : Site} {pc : Nat} {value : Value} {v : Scalar} (h : Represents value v)
    {what : Printed} (hwhat : printed? v.ty = some what)
    (hcode : s.Has pc (printCode v.ty what)) (locals : Array Value) (w : World) :
    ∃ n, s.Steps ⟨pc, [value, .console], locals, w⟩ n
      ⟨pc + (printCode v.ty what).length, [], locals,
        { w with printed := w.printed.push v.line }⟩ := by
  simp only [printCode, Site.has_append, Site.has_cons, List.length_append,
    List.length_singleton] at hcode ⊢
  obtain ⟨⟨hcast, hunbox⟩, hprint, -⟩ := hcode
  obtain ⟨n, unboxed⟩ : ∃ n, s.Steps
      ⟨pc + (downcast v.ty).length, [value, .console], locals, w⟩ n _ :=
    step_printedValue h hunbox
  rw [Nat.add_assoc] at unboxed
  exact ⟨_, ((step_downcast h rfl hcast).trans unboxed).trans
    (Site.step_print hprint [printedValue value v] (by cases what <;> rfl)
      (perform_println h hwhat w.heap) rfl)⟩

section Statements

variable {s : Site} {Γ : Context} {slots : Slots} {base : List String} {env : Env} {fuel : Nat}

/-- A return ends the run of bare code. -/
lemma stops_ret (hcallers : s.callers = []) {pc : Nat} {locals : Array Value} {w : World}
    (hi : s.code[pc]? = some .ret) :
    Machine.Stops s.classFile (s.machine ⟨pc, [], locals, w⟩) 1
      (.ok { returned := none, exited := true, stack := [], locals }) w :=
  .exit hi rfl (by rw [Site.machine, hcallers]; rfl)

lemma stops_retValue (hcallers : s.callers = []) {pc : Nat} {value : Value}
    {locals : Array Value} {w : World} (hi : s.code[pc]? = some .retValue) :
    Machine.Stops s.classFile (s.machine ⟨pc, [value], locals, w⟩) 1
      (.ok { returned := some value, exited := true, stack := [], locals }) w :=
  .exit hi rfl (by rw [Site.machine, hcallers]; rfl)

lemma lands_plain {depth : Nat} {loop : Option LoopLabels} {scope : ScopeId} {t u : Supply}
    {stmt : Stmt} {code : List Instruction} (h : PlainCode env depth loop scope t stmt code u)
    (hΓ : env.symbols = Γ.symbols) {inLoop : Bool} (ht : Γ.stmtTyped inLoop scope stmt = true)
    (hs : scalarStmt stmt = true) (hslots : u.slots.Within slots) (hcallers : s.callers = [])
    {pc : Nat} (hcode : s.Has pc code) {locals : Array Value} {w : World} {r : Snapshot}
    (hholds : Holds Γ slots locals r.store) (hprinted : w.printed.toList = base ++ r.printed) :
    Lands s Γ slots base fuel loop ⟨pc, [], locals, w⟩ (pc + code.length)
      (execStmt fuel stmt r) := by
  cases h with
  | @assign _ _ target value op name code _ hname hvalue =>
      rw [Context.stmtTyped, Bool.and_eq_true] at ht
      obtain ⟨note, name', v, rfl, -, -, hvars⟩ := Context.exists_of_variableTyped ht.1
      obtain rfl : name' = name := by simpa [Expr.ident?] using hname
      obtain ⟨htyped, hty⟩ := Context.typedAs_iff.1 ht.2
      simp only [scalarStmt, Bool.and_eq_true] at hs
      simp only [Site.has_append, Site.has_cons] at hcode
      have hslot := Supply.get?_slotOf (hvalue.within.slots.trans hslots)
      have yields := yields_expr hvalue.2 hΓ htyped (scalar_assignedValue hs.1 hs.2) hslots hcode.1
        hholds [] w
      rw [eval_assignedValue, hty] at yields
      simp only [execStmt, hname]
      refine Lands.value yields hprinted fun v store value locals w hv hvalue hholds hprinted => ?_
      have hvars' : Γ.vars name' = some v.ty := hv ▸ hvars
      exact .falls (Site.step_store hcode.2.1) (by simp [Nat.add_assoc])
        (hholds.update hvars' hslot hvalue) hprinted
  | assignElement _ _ _ _ _ _ => simp [scalarStmt] at hs
  | @exitLoop _ labels hloop =>
      rw [execStmt]
      refine ⟨labels, hloop, fun place hplace => ?_⟩
      exact ⟨1, _, Site.step_jump (Site.has_cons.1 hcode).1 hplace, rfl, rfl, hholds, hprinted⟩
  | @nextLoop _ labels hloop =>
      rw [execStmt]
      refine ⟨labels, hloop, fun place hplace => ?_⟩
      exact ⟨1, _, Site.step_jump (Site.has_cons.1 hcode).1 hplace, rfl, rfl, hholds, hprinted⟩
  | ret =>
      rw [execStmt]
      exact ⟨0, _, none, .refl s _, hholds, hprinted, .none,
        stops_ret hcallers (Site.has_cons.1 hcode).1⟩
  | @retValue _ _ value code hvalue =>
      rw [Context.stmtTyped, Bool.and_eq_true] at ht
      simp only [Site.has_append, Site.has_cons] at hcode
      have yields := yields_expr hvalue.2 hΓ ht.1 hs hslots hcode.1 hholds [] w
      rw [execStmt]
      refine Lands.value yields hprinted fun v store value locals w hv hvalue hholds hprinted => ?_
      exact ⟨0, _, some value, .refl s _, hholds, hprinted, .some hvalue,
        stops_retValue hcallers hcode.2.1⟩
  | @put _ _ value what code hvalue hwhat =>
      rw [Context.stmtTyped, Bool.and_eq_true] at ht
      rw [append_printCode, Site.has_cons, Site.has_append] at hcode
      rw [append_printCode]
      obtain ⟨hconsole, hvaluecode, hprint⟩ := hcode
      have yields := yields_expr hvalue.2 hΓ ht.1 hs hslots hvaluecode hholds [.console] w
      rw [execStmt]
      refine .after (Site.step_console hconsole) ?_
      refine Lands.value yields hprinted fun v store value' locals w hv hvalue hholds hprinted => ?_
      rw [← hv] at hprint hwhat ⊢
      obtain ⟨n, hsteps⟩ := step_println hvalue hwhat hprint locals w
      exact .falls hsteps (by simp; omega) hholds (by simp [hprinted])
  | @eval _ _ e code hexpr =>
      have value : producesValue env scope e = true := by
        cases e <;> first | rfl | simp [scalarStmt, scalarExpr] at hs
      have htyped : Γ.typed scope e = true := by
        rw [Context.stmtTyped, Bool.or_eq_true] at ht
        rcases ht with ht | ht
        · exact ht
        · cases e <;> simp [Context.callTyped, scalarStmt, scalarExpr] at ht hs
      rw [value, if_pos rfl, Site.has_append, Site.has_cons] at hcode
      have yields := yields_expr hexpr hΓ htyped hs hslots hcode.1 hholds [] w
      rw [execStmt, value, if_pos rfl]
      refine Lands.value yields hprinted fun v store value locals w hv hvalue hholds hprinted => ?_
      exact .falls (Site.step_pop hcode.2.1) (by simp [Nat.add_assoc]) hholds hprinted

/-! ## Conditionals -/

lemma endsInReturn_append (code more : List Instruction) :
    endsInReturn (code ++ more) = if more = [] then endsInReturn code else endsInReturn more := by
  cases more with
  | nil => simp
  | cons i rest => simp [endsInReturn, List.getLast?_append, List.getLast?_cons]

/-- A plain statement whose code ends in a return is a return. -/
lemma not_falls_of_plain {depth : Nat} {loop : Option LoopLabels} {scope : ScopeId} {t u : Supply}
    {stmt : Stmt} {code : List Instruction} (h : PlainCode env depth loop scope t stmt code u)
    (hs : scalarStmt stmt = true) (hends : endsInReturn code = true) (r : Snapshot) :
    (execStmt fuel stmt r).1 ≠ .falls := by
  cases h with
  | assign _ _ => simp [endsInReturn, Instruction.isReturn] at hends
  | assignElement _ _ _ _ _ _ => simp [scalarStmt] at hs
  | exitLoop _ | nextLoop _ => simp [endsInReturn, Instruction.isReturn] at hends
  | ret => simp [execStmt]
  | @retValue _ _ value _ _ =>
      rw [execStmt]
      cases eval value r.store <;> simp [withValue]
  | put _ _ =>
      rw [endsInReturn_append, if_neg (by simp)] at hends
      simp [endsInReturn, Instruction.isReturn, Instruction.callVirtual] at hends
  | @eval _ _ e _ _ =>
      have value : producesValue env scope e = true := by
        cases e <;> first | rfl | simp [scalarStmt, scalarExpr] at hs
      simp [value, endsInReturn, Instruction.isReturn] at hends

/-- **A block whose code ends in a return does not fall through**, so nothing is missed where the
jump over the other branch is left out. -/
lemma not_falls_of_endsInReturn {depth : Nat} {loop : Option LoopLabels} {scope : ScopeId}
    {t u : Supply} {block : List Stmt} {code : List Instruction}
    (h : BlockCode env depth loop scope t block code u) (hs : scalarBlock block = true)
    (hends : endsInReturn code = true) (r : Snapshot) :
    (execBlock fuel block r).1 ≠ .falls := by
  induction block generalizing t code r with
  | nil =>
      cases h
      simp [endsInReturn] at hends
  | cons stmt rest ih =>
      rw [scalarBlock, Bool.and_eq_true] at hs
      cases h with
      | @cons _ _ _ _ _ _ _ code codes hstmt hrest =>
          rw [endsInReturn_append] at hends
          rw [execBlock]
          by_cases hempty : codes = []
          · rw [if_pos hempty] at hends
            have stays : (execStmt fuel stmt r).1 ≠ .falls := by
              cases hstmt with
              | plain hplain => exact not_falls_of_plain hplain hs.1 hends r
              | branch _ _ _ _ | loop _ =>
                  rw [endsInReturn_append, if_neg (by simp)] at hends
                  simp [endsInReturn, Instruction.isReturn] at hends
            rcases hres : execStmt fuel stmt r with ⟨ending, r'⟩
            rw [hres] at stays
            cases ending <;> simp_all
          · rw [if_neg hempty] at hends
            rcases hres : execStmt fuel stmt r with ⟨ending, r'⟩
            cases ending with
            | falls => exact ih hrest hs.2 hends r'
            | _ => simp

/-- **The jump over the second branch.**  Where the first branch falls through, its code does not
end in a return, so the jump is there. -/
lemma lands_skip {pc place pc' : Nat} {code : List Instruction} {target : Label}
    {loop : Option LoopLabels} {p : Point} {result : Ending × Snapshot}
    (hcode : s.Has pc (skipCode code target)) (hplace : s.code[place]? = some (.label target))
    (hends : endsInReturn code = true → result.1 ≠ .falls)
    (h : Lands s Γ slots base fuel loop p pc result) (hpc : place + 1 = pc') :
    Lands s Γ slots base fuel loop p pc' result := by
  obtain ⟨ending, r⟩ := result
  cases ending with
  | falls =>
      obtain ⟨n, ⟨_, _, locals, w⟩, hsteps, rfl, rfl, hholds, hprinted⟩ := h
      have missing : endsInReturn code = false := by simpa using hends
      rw [skipCode, if_neg (by simp [missing]), Site.has_cons] at hcode
      exact .falls ((hsteps.trans (Site.step_jump hcode.1 hplace)).trans (Site.step_label hplace))
        hpc hholds hprinted
  | breaks | restarts | returns _ | fails _ | running => exact h

/-- One instruction behind the code. -/
lemma lands_label {pc place pc' : Nat} {label : Label} {loop : Option LoopLabels} {p : Point}
    {result : Ending × Snapshot} (hplace : s.code[place]? = some (.label label))
    (h : Lands s Γ slots base fuel loop p pc result) (hat : pc = place) (hpc : place + 1 = pc') :
    Lands s Γ slots base fuel loop p pc' result := by
  subst hat
  obtain ⟨ending, r⟩ := result
  cases ending with
  | falls =>
      obtain ⟨n, ⟨_, _, locals, w⟩, hsteps, rfl, rfl, hholds, hprinted⟩ := h
      exact .falls (hsteps.trans (Site.step_label hplace)) hpc hholds hprinted
  | breaks | restarts | returns _ | fails _ | running => exact h

/-- **Both branches**, behind the truth value that decides. -/
lemma lands_branch (r : Snapshot) {pc pc' n : Nat} {second third : List Instruction}
    {loop : Option LoopLabels} {thenBody elseBody : Snapshot → Ending × Snapshot}
    (hcode : s.Has pc (branchCode n second third))
    (hends : endsInReturn second = true → ∀ r, (thenBody r).1 ≠ .falls)
    (hthen : s.Has (pc + 2) second → ∀ locals w r, Holds Γ slots locals r.store →
      w.printed.toList = base ++ r.printed →
      Lands s Γ slots base fuel loop ⟨pc + 2, [], locals, w⟩ (pc + 2 + second.length) (thenBody r))
    (helse : ∀ place, s.Has place third → ∀ locals w r, Holds Γ slots locals r.store →
      w.printed.toList = base ++ r.printed →
      Lands s Γ slots base fuel loop ⟨place, [], locals, w⟩ (place + third.length) (elseBody r))
    {v : Scalar} {value : Value} {locals : Array Value} {w : World}
    (hv : v.ty = .bool) (hvalue : Represents value v) (hholds : Holds Γ slots locals r.store)
    (hprinted : w.printed.toList = base ++ r.printed)
    (hpc : pc + (branchCode n second third).length = pc') :
    Lands s Γ slots base fuel loop ⟨pc, [value], locals, w⟩ pc'
      (choose thenBody elseBody v r) := by
  obtain ⟨b, rfl⟩ : ∃ b, v = .bool b := by cases v <;> simp [Scalar.ty] at hv ⊢
  simp only [branchCode, Site.has_append, Site.has_cons, List.length_append, List.length_cons,
    List.length_nil, Nat.zero_add, Nat.reduceAdd] at hcode hpc
  obtain ⟨⟨⟨⟨⟨⟨hunbox, htest, -⟩, hsecond⟩, hskip⟩, hother, -⟩, hthird⟩, hend, -⟩ := hcode
  cases hvalue
  refine .after ((Site.step_unboxBool hunbox).trans (Site.step_ifZero htest hother)) ?_
  cases b with
  | true =>
      exact lands_skip (by rwa [Nat.add_assoc]) hend (fun h => hends h r)
        (hthen hsecond locals w r hholds hprinted) (by omega)
  | false =>
      exact .after (Site.step_label hother)
        (lands_label hend (helse _ hthird locals w r hholds hprinted) (by omega) (by omega))

/-! ## Loops -/

/-- **Rounds of a loop.**  Each begins at the first label, at `pc`; `break` leads behind the second
label and `next` back to the first. -/
lemma lands_loop {pc n : Nat} {code : List Instruction}
    (hcode : s.Has pc (.label ⟨n⟩ :: code ++ [.jump ⟨n⟩, .label ⟨n + 1⟩]))
    {body : Snapshot → Ending × Snapshot}
    (hbody : ∀ locals w r, Holds Γ slots locals r.store →
      w.printed.toList = base ++ r.printed →
      Lands s Γ slots base fuel (some ⟨⟨n⟩, ⟨n + 1⟩⟩) ⟨pc + 1, [], locals, w⟩
        (pc + 1 + code.length) (body r))
    {rounds : Nat} (hrounds : rounds ≤ fuel) (loop : Option LoopLabels) {p : Point} {r : Snapshot}
    (hpc : p.pc = pc) (hshows : Shows Γ slots base p r) :
    Lands s Γ slots base rounds loop p (pc + (code.length + 3)) (iterate body rounds r) := by
  simp only [List.cons_append, Site.has_cons, Site.has_append] at hcode
  obtain ⟨hstart, -, hjump, hexit, -⟩ := hcode
  induction rounds generalizing p r with
  | zero => exact ⟨0, p, Nat.le_refl 0, .refl s p, hshows.printed⟩
  | succ rounds ih =>
      obtain ⟨pc', stack, locals, w⟩ := p
      obtain rfl : pc' = pc := hpc
      obtain ⟨rfl, hholds, hprinted⟩ := hshows
      have first : s.Steps ⟨pc', [], locals, w⟩ 1 ⟨pc' + 1, [], locals, w⟩ := Site.step_label hstart
      have round := hbody locals w r hholds hprinted
      -- the rounds that are left, from a point that is back at the first label
      have again : ∀ {k q r'}, s.Steps ⟨pc' + 1, [], locals, w⟩ k q → q.pc = pc' →
          Shows Γ slots base q r' →
          Lands s Γ slots base (rounds + 1) loop ⟨pc', [], locals, w⟩ (pc' + (code.length + 3))
            (iterate body rounds r') := by
        intro k q r' hsteps hq hshows
        exact (ih (by omega) hq hshows).later (first.trans hsteps) (by omega)
      rw [iterate]
      rcases hres : body r with ⟨ending, r'⟩
      rw [hres] at round
      cases ending with
      | falls =>
          obtain ⟨k, ⟨_, _, locals', w'⟩, hsteps, rfl, rfl, hholds', hprinted'⟩ := round
          exact again (hsteps.trans (Site.step_jump hjump hstart)) rfl ⟨rfl, hholds', hprinted'⟩
      | restarts =>
          obtain ⟨labels, hlabels, hreach⟩ := round
          obtain rfl : ⟨⟨n⟩, ⟨n + 1⟩⟩ = labels := by simpa using hlabels
          obtain ⟨k, q, hsteps, hq, hshows⟩ := hreach pc' hstart
          exact again hsteps hq hshows
      | breaks =>
          obtain ⟨labels, hlabels, hreach⟩ := round
          obtain rfl : ⟨⟨n⟩, ⟨n + 1⟩⟩ = labels := by simpa using hlabels
          obtain ⟨k, ⟨_, _, locals', w'⟩, hsteps, rfl, rfl, hholds', hprinted'⟩ := hreach _ hexit
          exact .falls ((first.trans hsteps).trans (Site.step_label hexit)) (by omega) hholds'
            hprinted'
      | returns v =>
          obtain ⟨k, q, result, hsteps, rest⟩ := round
          exact ⟨_, q, result, first.trans hsteps, rest⟩
      | fails why =>
          obtain ⟨k, q, fault, hsteps, rest⟩ := round
          exact ⟨_, q, fault, first.trans hsteps, rest⟩
      | running =>
          obtain ⟨k, q, hk, hsteps, rest⟩ := round
          exact ⟨_, q, by omega, first.trans hsteps, rest⟩

/-! ## Statements and blocks -/

mutual

/-- **The code of a statement lands where its direct execution ends.** -/
theorem lands_stmt {depth : Nat} {loop : Option LoopLabels} {scope : ScopeId} {t u : Supply}
    {stmt : Stmt} {code : List Instruction} (h : StmtCode env depth loop scope t stmt code u)
    (hΓ : env.symbols = Γ.symbols) {inLoop : Bool} (ht : Γ.stmtTyped inLoop scope stmt = true)
    (hs : scalarStmt stmt = true) (hslots : u.slots.Within slots) (hcallers : s.callers = [])
    {pc : Nat} (hcode : s.Has pc code) (locals : Array Value) (w : World) (r : Snapshot)
    (hholds : Holds Γ slots locals r.store) (hprinted : w.printed.toList = base ++ r.printed) :
    Lands s Γ slots base fuel loop ⟨pc, [], locals, w⟩ (pc + code.length)
      (execStmt fuel stmt r) :=
  match h with
  | .plain hplain => lands_plain hplain hΓ ht hs hslots hcallers hcode hholds hprinted
  | @StmtCode.branch _ _ _ _ _ u v _ _ cond thenBody elseBody block first second third hbool hcond
      hthen helse => by
      rw [Context.stmtTyped, ← hΓ, Bool.and_eq_true, Bool.and_eq_true] at ht
      obtain ⟨⟨htcond, htthen⟩, htelse⟩ := ht
      rw [scalarStmt, Bool.and_eq_true, Bool.and_eq_true] at hs
      obtain ⟨⟨hscond, hsthen⟩, hselse⟩ := hs
      have vWithin := helse.within.slots.trans hslots
      have uWithin := hthen.within.slots.trans vWithin
      rw [append_branchCode, Site.has_append] at hcode
      have yields := yields_expr hcond.2 hΓ (Context.typedAs_iff.1 htcond).1 hscond uWithin hcode.1
        hholds [] w
      rw [hbool] at yields
      rw [execStmt]
      refine Lands.value yields hprinted fun v store value locals w hv hvalue hholds hprinted => ?_
      refine lands_branch ⟨store, r.printed⟩ hcode.2
        (not_falls_of_endsInReturn hthen hsthen)
        (fun h => lands_block hthen hΓ htthen hsthen vWithin hcallers h)
        (fun place h => lands_block helse hΓ htelse hselse hslots hcallers h) hv hvalue hholds
        hprinted ?_
      rw [append_branchCode, List.length_append, Nat.add_assoc]
  | @StmtCode.loop _ _ _ _ _ _ _ body block code hbody => by
      rw [Context.stmtTyped, ← hΓ] at ht
      rw [scalarStmt] at hs
      have bodyCode : s.Has (pc + 1) code := by
        rw [List.cons_append, Site.has_cons, Site.has_append] at hcode
        exact hcode.2.1
      have round := lands_block hbody hΓ ht hs hslots hcallers bodyCode
      rw [execStmt]
      simpa using lands_loop hcode round (Nat.le_refl fuel) loop rfl ⟨rfl, hholds, hprinted⟩

/-- **The code of a block lands where its direct execution ends.** -/
theorem lands_block {depth : Nat} {loop : Option LoopLabels} {scope : ScopeId} {t u : Supply}
    {block : List Stmt} {code : List Instruction}
    (h : BlockCode env depth loop scope t block code u) (hΓ : env.symbols = Γ.symbols)
    {inLoop : Bool} (ht : Γ.blockTyped inLoop scope block = true) (hs : scalarBlock block = true)
    (hslots : u.slots.Within slots) (hcallers : s.callers = []) {pc : Nat} (hcode : s.Has pc code)
    (locals : Array Value) (w : World) (r : Snapshot) (hholds : Holds Γ slots locals r.store)
    (hprinted : w.printed.toList = base ++ r.printed) :
    Lands s Γ slots base fuel loop ⟨pc, [], locals, w⟩ (pc + code.length)
      (execBlock fuel block r) :=
  match h with
  | .nil => .falls (.refl s _) rfl hholds hprinted
  | @BlockCode.cons _ _ _ _ _ _ _ _ _ code codes hstmt hrest => by
      rw [Context.blockTyped, Bool.and_eq_true] at ht
      rw [scalarBlock, Bool.and_eq_true] at hs
      rw [Site.has_append] at hcode
      have first := lands_stmt hstmt hΓ ht.1 hs.1 (hrest.within.slots.trans hslots) hcallers hcode.1
        locals w r hholds hprinted
      have behind := lands_block hrest hΓ ht.2 hs.2 hslots hcallers hcode.2
      rw [Nat.add_assoc, ← List.length_append] at behind
      rw [execBlock]
      rcases hres : execStmt fuel _ r with ⟨ending, r'⟩
      rw [hres] at first
      cases ending with
      | falls =>
          obtain ⟨n, ⟨_, _, locals', w'⟩, hsteps, rfl, rfl, hholds', hprinted'⟩ := first
          exact (behind locals' w' r' hholds' hprinted').after hsteps
      | breaks | restarts | returns _ | fails _ | running => exact first

end

end Statements

end StackBackend.Direct
