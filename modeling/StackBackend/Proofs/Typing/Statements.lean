import StackBackend.Proofs.Typing.Expressions

/-!
# Well-typed statements are safe

Between statements a frame has no operands, and a place is safe to go on from if every typed frame
is safe there (`Ready`).  The code of a well-typed statement leads from its place to the one behind
it, to the labels of the loop around it, out of the frame, or into a function, so its place is ready
if all of those are.

* `Exits` — what is asked of the places other than the one behind the code;
* `ready_plain`, `ready_branch`, `ready_loop` — statements of one kind;
* `ready_stmt`, `ready_block` — the code of statements and blocks.

Places become ready from the end of a body to its beginning, and that is enough for all but loops.
A loop comes back to its first label, which takes a step: it is ready for `n` steps if it is ready
for fewer (`ready_loop`).
-/

namespace StackBackend.Typing

open Lowering Conf Machine

section Ready

variable (s : Site) (Γ : Context) (slots : Slots)

/-- **It is safe to go on at a place** for `n` steps, without operands and in a memory that has
grown from `M`. -/
def Ready (n : Nat) (M : Memory Γ.functions) (pc : Nat) : Prop :=
  ∀ c : Conf Γ slots, M.Within c.memory → Safe s.classFile n (s.machine (c.point pc []))

/-- It is safe to go on at a label. -/
def ReadyAt (n : Nat) (M : Memory Γ.functions) (target : Label) : Prop :=
  ∃ place, s.code[place]? = some (.label target) ∧ Ready s Γ slots n M place

/-- **Where a statement may go**, other than behind its code. -/
structure Exits (n : Nat) (M : Memory Γ.functions) (loop : Option LoopLabels) : Prop where
  calls : ∀ k < n, CallsSafe s.classFile Γ.functions k
  returns : ∀ (M' : Memory Γ.functions) (printed : Array String) (opened : Nat)
    (result : Option Value),
    M.Within M' → (Γ.ret ≠ .void → ∀ v ∈ result, M'.HasTy v Γ.ret) →
    s.Leaves n result ⟨M'.heap, printed, opened⟩
  breaks : ∀ {labels}, loop = some labels → ReadyAt s Γ slots n M labels.exit
  restarts : ∀ {labels}, loop = some labels → ReadyAt s Γ slots n M labels.start

variable {s Γ slots} {n k pc : Nat} {M : Memory Γ.functions} {loop : Option LoopLabels}

lemma Ready.mono (h : Ready s Γ slots n M pc) (hle : k ≤ n) : Ready s Γ slots k M pc :=
  fun c hM => (h c hM).mono hle

/-- **The end of a statement**: a place, no operands, and a memory that has grown. -/
def Conf.Falls (c : Conf Γ slots) (pc : Nat) (q : Point) : Prop :=
  ∃ c' : Conf Γ slots, c.memory.Within c'.memory ∧ q = c'.point pc []

lemma falls_of_steps {c c' : Conf Γ slots} {p : Point} {pc' : Nat}
    (hsteps : s.Steps p k (c'.point pc' [])) (hwithin : c.memory.Within c'.memory)
    (hpc : pc' = pc) : s.Secures n p (c.Falls pc) := by
  subst hpc
  exact .steps hsteps ⟨c', hwithin, rfl⟩

/-- It is safe to run to a place that is ready. -/
lemma Ready.of_falls (h : Ready s Γ slots n M pc) {c : Conf Γ slots} (hM : M.Within c.memory)
    {p : Point} (hfalls : s.Secures n p (c.Falls pc)) : Safe s.classFile n (s.machine p) := by
  refine hfalls ?_
  rintro _ ⟨c', hwithin, rfl⟩
  exact h c' (hM.trans hwithin)

/-- Passing a label. -/
lemma Ready.label (h : Ready s Γ slots n M (pc + 1)) {l : Label}
    (hi : s.code[pc]? = some (.label l)) : Ready s Γ slots n M pc := by
  intro c hM
  exact h.of_falls hM (falls_of_steps (Site.step_label hi) (.refl c.memory) rfl)

/-- Jumping to a label. -/
lemma ReadyAt.jump {target : Label} (h : ReadyAt s Γ slots n M target)
    (hi : s.code[pc]? = some (.jump target)) : Ready s Γ slots n M pc := by
  intro c hM
  obtain ⟨place, hplace, hready⟩ := h
  exact hready.of_falls hM (falls_of_steps (Site.step_jump hi hplace) (.refl c.memory) rfl)

/-- Inside a loop, and for fewer steps. -/
lemma Exits.inside (h : Exits s Γ slots n M loop) (hle : k ≤ n) {labels : LoopLabels}
    (hbreaks : ReadyAt s Γ slots k M labels.exit) (hrestarts : ReadyAt s Γ slots k M labels.start) :
    Exits s Γ slots k M (some labels) where
  calls j hj := h.calls j (Nat.lt_of_lt_of_le hj hle)
  returns M' printed opened result hM hresult :=
    (h.returns M' printed opened result hM hresult).mono hle
  breaks hlabels := by
    obtain rfl := by simpa using hlabels
    exact hbreaks
  restarts hlabels := by
    obtain rfl := by simpa using hlabels
    exact hrestarts

end Ready

variable {s : Site} {n : Nat} {Γ : Context} {slots : Slots} {env : Env} {scope : ScopeId}

/-! ## Statements without a block -/

/-- A value of any type can be printed. -/
lemma secures_println {ty : Ty} {what : Printed} (hwhat : printed? ty = some what) {pc : Nat}
    (hcode : s.Has pc (printCode ty what)) (c : Conf Γ slots) {v : Value}
    (hv : c.memory.HasTy v ty) :
    s.Secures n (c.point pc [v, .console]) (c.Falls (pc + (printCode ty what).length)) := by
  simp only [printCode, Site.has_append, Site.has_cons, List.length_append, List.length_singleton,
    ← Nat.add_assoc] at hcode ⊢
  obtain ⟨⟨hcast, hunbox⟩, hprint, -⟩ := hcode
  -- what is printed is a raw integer where the value is boxed, and the value itself elsewhere
  have shown : s.Secures n (c.point (pc + (downcast ty).length) [v, .console]) fun q =>
      ∃ x line, (LibraryMethod.println what).perform c.memory.heap .console [x]
          = .ok (.print line, c.memory.heap) ∧
        q = c.point (pc + (downcast ty).length + (unboxing ty).length) [x, .console] := by
    cases ty with
    | int =>
        cases hwhat
        refine (secures_unboxing c hv rfl hunbox).weaken ?_
        rintro _ ⟨x, rfl⟩
        exact ⟨_, _, rfl, rfl⟩
    | bool =>
        cases hwhat
        refine (secures_unboxing c hv rfl hunbox).weaken ?_
        rintro _ ⟨x, rfl⟩
        exact ⟨_, _, rfl, rfl⟩
    | string | list _ | fptr _ _ =>
        cases hwhat
        obtain ⟨line, hline⟩ := Memory.exists_text hv
        refine .here ⟨v, line, ?_, rfl⟩
        simp [LibraryMethod.perform, LibraryMethod.printedLine, hline, bind, Except.bind]
    | void => simp [printed?] at hwhat
  obtain ⟨k, checked⟩ := step_downcast c hv hcast
  refine .step checked (shown.bind ?_)
  rintro _ ⟨x, line, performed, rfl⟩
  let c' := c.withMemory c.memory (fun h => h) (c.printed.push line) c.opened
  have printed :
      s.Steps (c.point (pc + (downcast ty).length + (unboxing ty).length) [x, .console]) 1
        (c'.point (pc + (downcast ty).length + (unboxing ty).length + 1) []) :=
    Site.step_print (w := ⟨c.memory.heap, c.printed, c.opened⟩) hprint [x] (by cases what <;> rfl)
      performed rfl
  exact falls_of_steps printed (.refl c.memory) rfl

/-- **An element of a list is replaced** by a value of the same type, if it is there. -/
lemma secures_listSet {pc : Nat} (hi : s.code[pc]? = some (.callVirtual .listSet))
    (c : Conf Γ slots) {list v : Value} {element : Ty} (hlist : c.memory.HasTy list (.list element))
    (i : Int32) (hv : c.memory.HasTy v element) :
    s.Secures n (c.point pc [v, .raw i, list]) (c.Falls (pc + 1)) := by
  rcases Memory.null_or_items hlist with
    rfl | ⟨address, array, items, rfl, hobj, hitems, hback, hall⟩
  · exact .fault (Site.fails_receiver (by decide) hi [.raw i, v] rfl rfl rfl) rfl
  · have hbacking := Heap.backing_of_list hobj hitems
    rcases position_ok_or items i with ⟨place, hplace, -⟩ | hout
    · have hkeeps : ∀ {ty}, c.memory.backs array = some ty → ∃ items',
          Obj.array (items.setIfInBounds place v) = .array items' ∧
            ∀ v ∈ items', c.memory.HasTy v ty := by
        intro ty hty
        obtain rfl : element = ty := by simpa [hback] using hty
        refine ⟨_, rfl, fun x hx => ?_⟩
        rcases Array.mem_or_eq_of_mem_setIfInBounds hx with hx | rfl
        · exact hall x hx
        · exact hv
      let M := c.memory.put (.array (items.setIfInBounds place v)) hitems rfl hkeeps
      have hM : c.memory.Within M := c.memory.within_put hback hitems rfl hkeeps
      have replaced : LibraryMethod.listSet.perform c.memory.heap (.ref address) [.raw i, v]
          = .ok (.done none, M.heap) := by
        simp [LibraryMethod.perform, Heap.rawInt, hbacking, hplace, bind, Except.bind, M,
          Memory.put]
      let c' := c.withMemory M hM.hasTy c.printed c.opened
      have called : s.Steps (c.point pc [v, .raw i, .ref address]) 1 (c'.point (pc + 1) []) :=
        Site.step_call hi [.raw i, v] rfl replaced rfl rfl
      exact falls_of_steps called hM rfl
    · have failed : LibraryMethod.listSet.perform c.memory.heap (.ref address) [.raw i, v]
          = .error (.indexOutOfBounds i items.size) := by
        simp [LibraryMethod.perform, Heap.rawInt, hbacking, hout, bind, Except.bind]
      exact .fault (Site.fails_receiver (by decide) hi [.raw i, v] rfl failed rfl) rfl

/-- **An element of a list is assigned.**  The list is read before the index and the value are
computed. -/
lemma secures_assignElement {pc depth : Nat} {t u v : Supply} {name : String} {element : Ty}
    {index value : Expr} {first second : List Instruction}
    (hvars : Γ.vars name = some (.list element))
    (hindex : ValueCode env scope depth (t.withSlot (.var name)) index first u)
    (hvalue : ValueCode env scope depth u value second v) (hΓ : Agrees env Γ)
    (hint : Γ.typedAs scope index .int = true) (helement : Γ.typedAs scope value element = true)
    (hslots : v.slots.Within slots) (hcalls : ∀ k < n, CallsSafe s.classFile Γ.functions k)
    (hcode : s.Has pc ([Instruction.load (t.slotOf (.var name)), Instruction.cast ClassName.list] ++
      first ++ [Instruction.callVirtual .intValue] ++ second ++ [Instruction.callVirtual .listSet]))
    (c : Conf Γ slots) :
    s.Secures n (c.point pc []) (c.Falls (pc + 2 + first.length + 1 + second.length + 1)) := by
  obtain ⟨htyped, hty⟩ := Context.typedAs_iff.1 hint
  obtain ⟨htyped', hty'⟩ := Context.typedAs_iff.1 helement
  have hslots' := hvalue.within.slots.trans hslots
  have held := c.fits hvars (Supply.get?_slotOf (hindex.within.slots.trans hslots'))
  simp only [Site.has_append, Site.has_cons, List.length_append, ← Nat.add_assoc,
    List.length_cons, List.length_nil, Nat.add_zero] at hcode
  obtain ⟨⟨⟨⟨⟨hload, hcast, -⟩, hfirst⟩, hunbox, -⟩, hsecond⟩, hset, -⟩ := hcode
  have loaded : s.Steps (c.point pc []) 2
      (c.point (pc + 2) [c.locals[t.slotOf (.var name)]?.getD .null]) :=
    (Site.step_load hload).trans (Site.step_cast (w := ⟨c.memory.heap, c.printed, c.opened⟩) hcast
      (Memory.checkCast_of_hasTy held rfl))
  refine .step loaded ((secures_expr hindex.2 hΓ htyped hslots' hcalls hfirst c _).bind ?_)
  rintro _ ⟨c₁, i, hevolves₁, hi, rfl⟩
  rw [hty] at hi
  refine (secures_unboxInt c₁ hi hunbox).bind ?_
  rintro _ ⟨x, rfl⟩
  refine (secures_expr hvalue.2 hΓ htyped' hslots hcalls hsecond c₁ _).bind ?_
  rintro _ ⟨c₂, v, hevolves₂, hv, rfl⟩
  rw [hty'] at hv
  have hwithin := hevolves₁.memory.trans hevolves₂.memory
  refine (secures_listSet hset c₂ (hwithin.hasTy held) x hv).weaken ?_
  rintro _ ⟨c₃, hwithin', rfl⟩
  exact ⟨c₃, hwithin.trans hwithin', rfl⟩

/-- **A call without a value**: what it leaves is dropped. -/
lemma secures_procedure {depth : Nat} {t u : Supply} {note : Note} {callee : Expr}
    {args : List Expr} {code : List Instruction}
    (h : ExprCode env scope depth t (.call note callee args) code u) (hΓ : Agrees env Γ)
    (hsignature : Γ.signature? scope callee = some (args.map Expr.ty, note.ty))
    (htyped : Γ.allTyped scope args = true) (hvoid : note.ty.isVoid = true)
    (hslots : u.slots.Within slots) (hcalls : ∀ k < n, CallsSafe s.classFile Γ.functions k)
    {pc : Nat} (hcode : s.Has pc code) (c : Conf Γ slots) :
    s.Secures n (c.point pc []) (c.Falls (pc + code.length)) := by
  cases h with
  | @call _ _ _ _ _ note' name _ first code hcallee _ hargs =>
      rw [hΓ.callType_eq hsignature, resultCode, if_pos hvoid] at hcode ⊢
      rw [Site.has_append, length_call, ← Nat.add_assoc, ← Nat.add_assoc, ← Nat.add_assoc] at hcode
      obtain ⟨hcall, hpop⟩ := hcode
      refine (secures_call hcallee hargs hslots hΓ.symbols hsignature hcalls hcall
        (fun hcode hreserved c M₀ array => secures_elements hargs hΓ htyped hslots hcalls hcode
          hreserved c M₀ array []) c []).bind ?_
      rintro _ ⟨c', v, hevolves, -, rfl⟩
      refine falls_of_steps (Site.step_pop (Site.has_cons.1 hpop).1) hevolves.memory ?_
      rw [List.length_append, length_call, List.length_singleton]
      omega
  | leaf hleaf => cases hleaf
  | unary _ _ hlast => cases hlast
  | binary _ _ _ _ hlast => cases hlast

/-- **A statement without a block is ready** if what follows it is. -/
lemma ready_plain {depth : Nat} {loop : Option LoopLabels} {t u : Supply} {stmt : Stmt}
    {code : List Instruction} (h : PlainCode env depth loop scope t stmt code u) (hΓ : Agrees env Γ)
    {inLoop : Bool} (ht : Γ.stmtTyped inLoop scope stmt = true) (hslots : u.slots.Within slots)
    {pc : Nat} (hcode : s.Has pc code) {M : Memory Γ.functions} (hexits : Exits s Γ slots n M loop)
    (hnext : Ready s Γ slots n M (pc + code.length)) : Ready s Γ slots n M pc := by
  intro c hM
  cases h with
  | @assign _ _ target value op name code _ hname hvalue =>
      rw [Context.stmtTyped, Bool.and_eq_true] at ht
      obtain ⟨note, name', _, rfl, -, -, hvars⟩ := Context.exists_of_variableTyped ht.1
      obtain rfl : name' = name := by simpa [Expr.ident?] using hname
      obtain ⟨htyped, hty⟩ := Context.typedAs_iff.1 ht.2
      simp only [Site.has_append, Site.has_cons] at hcode
      have hslot := Supply.get?_slotOf (hvalue.within.slots.trans hslots)
      refine hnext.of_falls hM
        ((secures_expr hvalue.2 hΓ htyped hslots hexits.calls hcode.1 c []).bind ?_)
      rintro _ ⟨c', v, hevolves, hv, rfl⟩
      rw [hty] at hv
      let written := c'.write (t.slotOf (.var name')) v (fits_var hvars hslot hv)
      have stored : s.Steps (c'.point (pc + code.length) [v]) 1
          (written.point (pc + code.length + 1) []) := Site.step_store hcode.2.1
      exact falls_of_steps stored hevolves.memory (by simp [Nat.add_assoc])
  | @assignElement _ _ _ target index value op name element first second _ hname helement _ hindex
      hvalue =>
      rw [Context.stmtTyped, Bool.and_eq_true, Bool.and_eq_true, Option.any_eq_true] at ht
      obtain ⟨⟨htarget, hint⟩, element', helement', hassigned⟩ := ht
      obtain rfl : element' = element := by simpa [helement] using helement'.symm
      obtain ⟨note, name', _, rfl, -, -, hvars⟩ := Context.exists_of_variableTyped htarget
      obtain rfl : name' = name := by simpa [Expr.ident?] using hname
      rw [Expr.ty, Expr.note] at helement
      rw [Ty.element?_eq_some.1 helement] at hvars
      have hend : pc + 2 + first.length + 1 + second.length + 1 = pc + ([Instruction.load
          (t.slotOf (.var name')), Instruction.cast ClassName.list] ++ first ++
          [Instruction.callVirtual .intValue] ++ second ++
          [Instruction.callVirtual .listSet]).length := by
        simp only [List.length_append, List.length_cons, List.length_nil]
        omega
      rw [← hend] at hnext
      exact hnext.of_falls hM (secures_assignElement hvars hindex hvalue hΓ hint hassigned hslots
        hexits.calls hcode c)
  | @exitLoop _ labels hloop =>
      exact (hexits.breaks hloop).jump (Site.has_cons.1 hcode).1 c hM
  | @nextLoop _ labels hloop =>
      exact (hexits.restarts hloop).jump (Site.has_cons.1 hcode).1 c hM
  | ret =>
      exact Site.safe_of_ret (p := c.point pc []) (Site.has_cons.1 hcode).1
        (hexits.returns c.memory c.printed c.opened none hM (by simp))
  | @retValue _ _ value code hvalue =>
      rw [Context.stmtTyped, Bool.and_eq_true] at ht
      simp only [Site.has_append, Site.has_cons] at hcode
      refine secures_expr hvalue.2 hΓ ht.1 hslots hexits.calls hcode.1 c [] ?_
      rintro _ ⟨c', v, hevolves, hv, rfl⟩
      refine Site.safe_of_retValue hcode.2.1
        (hexits.returns c'.memory c'.printed c'.opened (some v) (hM.trans hevolves.memory) ?_)
      intro hret x hx
      obtain rfl : v = x := by simpa using hx
      rcases Bool.or_eq_true_iff.1 ht.2 with hvoid | hty
      · exact absurd (Ty.isVoid_iff.1 hvoid) hret
      · rwa [of_decide_eq_true hty] at hv
  | @put _ _ value what code hvalue hwhat =>
      rw [Context.stmtTyped, Bool.and_eq_true] at ht
      rw [append_printCode] at hcode hnext
      rw [Site.has_cons, Site.has_append] at hcode
      obtain ⟨hconsole, hvaluecode, hprint⟩ := hcode
      refine hnext.of_falls hM (.step (Site.step_console hconsole)
        ((secures_expr hvalue.2 hΓ ht.1 hslots hexits.calls hvaluecode c [.console]).bind ?_))
      rintro _ ⟨c', v, hevolves, hv, rfl⟩
      refine (secures_println hwhat hprint c' hv).weaken ?_
      rintro _ ⟨c'', hwithin, rfl⟩
      refine ⟨c'', hevolves.memory.trans hwithin, ?_⟩
      rw [List.length_cons, List.length_append]
      congr 1
      omega
  | @eval _ _ e code hexpr =>
      rw [Context.stmtTyped, Bool.or_eq_true] at ht
      by_cases htyped : Γ.typed scope e = true
      · have hvalue := hΓ.producesValue htyped
        rw [hvalue, if_pos rfl] at hcode hnext
        rw [Site.has_append, Site.has_cons] at hcode
        refine hnext.of_falls hM
          ((secures_expr hexpr hΓ htyped hslots hexits.calls hcode.1 c []).bind ?_)
        rintro _ ⟨c', v, hevolves, -, rfl⟩
        exact falls_of_steps (Site.step_pop hcode.2.1) hevolves.memory (by simp [Nat.add_assoc])
      · obtain ⟨note, callee, args, rfl, hsignature, hvoid, hargs⟩ :=
          Context.exists_of_procedure (ht.resolve_left htyped) htyped
        obtain ⟨note', name, rfl, -⟩ := Context.signature?_eq_some hsignature
        have hnone : producesValue env scope (.call note (.ident note' name) args) = false := by
          simp [producesValue, Expr.ident?, hΓ.callType_eq hsignature, hvoid]
        rw [hnone, if_neg Bool.false_ne_true, List.append_nil] at hcode hnext
        exact hnext.of_falls hM
          (secures_procedure hexpr hΓ hsignature hargs hvoid hslots hexits.calls hcode c)

/-! ## Conditionals and loops -/

section Blocks

variable {M : Memory Γ.functions} {loop : Option LoopLabels} {pc : Nat}

/-- **Both branches are ready**, and a truth value decides which is taken. -/
lemma ready_branch {k : Nat} {second third : List Instruction}
    (hcode : s.Has pc (branchCode k second third))
    (hthen : s.Has (pc + 2) second → Ready s Γ slots n M (pc + 2 + second.length) →
      Ready s Γ slots n M (pc + 2))
    (helse : ∀ {place}, s.Has place third → Ready s Γ slots n M (place + third.length) →
      Ready s Γ slots n M place)
    (hnext : Ready s Γ slots n M (pc + (branchCode k second third).length))
    {c : Conf Γ slots} (hM : M.Within c.memory) {v : Value} (hv : c.memory.HasTy v .bool) :
    Safe s.classFile n (s.machine (c.point pc [v])) := by
  simp only [branchCode, Site.has_append, Site.has_cons, List.length_append, ← Nat.add_assoc,
    List.length_cons, List.length_nil, Nat.add_zero] at hcode hnext
  obtain ⟨⟨⟨⟨⟨⟨hunbox, htest, -⟩, hsecond⟩, hskip⟩, hother, -⟩, hthird⟩, hend, -⟩ := hcode
  have behind := hnext.label hend
  have other := (helse hthird behind).label hother
  -- without the jump, what stands behind the first branch is the second
  have skipped : Ready s Γ slots n M (pc + 2 + second.length) := by
    by_cases hreturns : endsInReturn second = true
    · rw [skipCode, if_pos hreturns] at other
      exact other
    · rw [skipCode, if_neg hreturns, Site.has_cons] at hskip
      exact ReadyAt.jump ⟨_, hend, behind⟩ hskip.1
  refine secures_unboxBool c hv hunbox ?_
  rintro _ ⟨x, rfl⟩
  have taken {place : Nat} (hplace : Ready s Γ slots n M place) (zero : Bool) :
      Ready s Γ slots n M (Site.target (pc + 1) place zero) := by
    cases zero with
    | true => exact hplace
    | false => exact hthen hsecond skipped
  exact (taken other _).of_falls hM
    (falls_of_steps (Site.step_ifZero htest hother) (.refl c.memory) rfl)

/-- **A loop is ready.**  A round that begins with `n + 1` steps to go comes back with `n` at most.
-/
lemma ready_loop {k : Nat} {code : List Instruction}
    (hcode : s.Has pc (Instruction.label ⟨k⟩ :: code ++ [.jump ⟨k⟩, .label ⟨k + 1⟩]))
    (hexits : Exits s Γ slots n M loop)
    (hbody : ∀ {j}, Exits s Γ slots j M (some ⟨⟨k⟩, ⟨k + 1⟩⟩) →
      Ready s Γ slots j M (pc + 1 + code.length) → Ready s Γ slots j M (pc + 1))
    (hnext : Ready s Γ slots n M (pc + 1 + code.length + 2)) : Ready s Γ slots n M pc := by
  simp only [List.cons_append, Site.has_cons, Site.has_append] at hcode
  obtain ⟨hstart, -, hjump, hexit, -⟩ := hcode
  have rounds : ∀ j ≤ n, Ready s Γ slots j M pc := by
    intro j
    induction j with
    | zero => exact fun _ c _ => .zero hstart
    | succ j ih =>
        intro hle c hM
        have back : ReadyAt s Γ slots j M ⟨k⟩ := ⟨pc, hstart, ih (by omega)⟩
        have out : ReadyAt s Γ slots j M ⟨k + 1⟩ :=
          ⟨_, hexit, (hnext.mono (Nat.le_of_succ_le hle)).label hexit⟩
        have round := hbody (hexits.inside (Nat.le_of_succ_le hle) out back) (back.jump hjump)
        have began : s.Steps (c.point pc []) 1 (c.point (pc + 1) []) := Site.step_label hstart
        exact (Safe.of_leads began (round c hM)).mono (Nat.le_of_eq (Nat.add_comm j 1))
  exact rounds n (Nat.le_refl n)

mutual

/-- **A well-typed statement is ready** if what follows it is. -/
theorem ready_stmt {depth : Nat} {loop : Option LoopLabels} {scope : ScopeId} {t u : Supply}
    {stmt : Stmt} {code : List Instruction} (h : StmtCode env depth loop scope t stmt code u)
    (hΓ : Agrees env Γ) {inLoop : Bool} (ht : Γ.stmtTyped inLoop scope stmt = true)
    (hslots : u.slots.Within slots) {n pc : Nat} (hcode : s.Has pc code)
    (hexits : Exits s Γ slots n M loop) (hnext : Ready s Γ slots n M (pc + code.length)) :
    Ready s Γ slots n M pc := by
  match h with
  | .plain hplain => exact ready_plain hplain hΓ ht hslots hcode hexits hnext
  | @StmtCode.branch _ _ _ _ _ u v w _ cond _ _ _ first second third hbool hcond hthen helse =>
      rw [Context.stmtTyped, Bool.and_eq_true, Bool.and_eq_true, ← hΓ.symbols] at ht
      obtain ⟨⟨htyped, htthen⟩, htelse⟩ := ht
      obtain ⟨htyped, hty⟩ := Context.typedAs_iff.1 htyped
      have hslots₂ := helse.within.slots.trans hslots
      have hslots₁ := hthen.within.slots.trans hslots₂
      rw [append_branchCode, Site.has_append] at hcode
      obtain ⟨hfirst, hbranches⟩ := hcode
      rw [append_branchCode, List.length_append, ← Nat.add_assoc] at hnext
      intro c hM
      refine secures_expr hcond.2 hΓ htyped hslots₁ hexits.calls hfirst c [] ?_
      rintro _ ⟨c', v, hevolves, hv, rfl⟩
      exact ready_branch hbranches
        (fun hcode hready => ready_block hthen hΓ htthen hslots₂ hcode hexits hready)
        (fun hcode hready => ready_block helse hΓ htelse hslots hcode hexits hready) hnext
        (hM.trans hevolves.memory) (hty ▸ hv)
  | @StmtCode.loop _ _ _ _ _ _ _ _ block code hbody =>
      rw [Context.stmtTyped, ← hΓ.symbols] at ht
      have hend : pc + (Instruction.label ⟨t.labels⟩ :: code ++ [Instruction.jump ⟨t.labels⟩,
          Instruction.label ⟨t.labels + 1⟩]).length = pc + 1 + code.length + 2 := by
        simp only [List.length_append, List.length_cons, List.length_nil]
        omega
      rw [hend] at hnext
      have inside : s.Has (pc + 1) code := by
        rw [List.cons_append, Site.has_cons, Site.has_append] at hcode
        exact hcode.2.1
      exact ready_loop hcode hexits
        (fun hexits hready => ready_block hbody hΓ ht hslots inside hexits hready) hnext

/-- **A well-typed block is ready** if what follows it is. -/
theorem ready_block {depth : Nat} {loop : Option LoopLabels} {scope : ScopeId} {t u : Supply}
    {block : List Stmt} {code : List Instruction}
    (h : BlockCode env depth loop scope t block code u) (hΓ : Agrees env Γ) {inLoop : Bool}
    (ht : Γ.blockTyped inLoop scope block = true) (hslots : u.slots.Within slots) {n pc : Nat}
    (hcode : s.Has pc code) (hexits : Exits s Γ slots n M loop)
    (hnext : Ready s Γ slots n M (pc + code.length)) : Ready s Γ slots n M pc := by
  match h with
  | .nil => exact hnext
  | @BlockCode.cons _ _ _ _ _ _ _ _ _ code codes hstmt hrest =>
      rw [Context.blockTyped, Bool.and_eq_true] at ht
      rw [Site.has_append] at hcode
      rw [List.length_append, ← Nat.add_assoc] at hnext
      exact ready_stmt hstmt hΓ ht.1 (hrest.within.slots.trans hslots) hcode.1 hexits
        (ready_block hrest hΓ ht.2 hslots hcode.2 hexits hnext)

end

end Blocks

end StackBackend.Typing
