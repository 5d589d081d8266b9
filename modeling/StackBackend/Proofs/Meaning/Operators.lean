import StackBackend.Proofs.Meaning.Representation

/-!
# Operators on data

What the code of a construct does once the values of its operands are on the stack.

* `step_listSize`, `perform_listGet`, `step_textTruth` — the library's part in it;
* `yields_leaf` — literals and variables;
* `yields_unary`, `yields_binary` — operators, given what is shown of the code of their operands.
-/

namespace StackBackend

namespace Site

open Lowering

variable {s : Site} {pc address array : Nat} {stack : List Value} {locals : Array Value} {w : World}
  {items : Array Value}

/-- The length of a list is that of the array behind it. -/
lemma step_listSize (hi : s.code[pc]? = some (.callVirtual .listSize))
    (hlist : w.heap.get? address = some (.list (.ref array)))
    (hitems : w.heap.get? array = some (.array items)) :
    s.Steps ⟨pc, .ref address :: stack, locals, w⟩ 1
      ⟨pc + 1, .raw (Int32.ofNat items.size) :: stack, locals, w⟩ := by
  have performed : LibraryMethod.listSize.perform w.heap (.ref address) []
      = .ok (.done (some (.raw (Int32.ofNat items.size))), w.heap) := by
    simp only [LibraryMethod.perform,
      Heap.listItems_eq_ok.2 (Heap.items?_of_list hlist hitems), bind, Except.bind]
  exact step_call hi [] rfl performed rfl rfl

/-- Taking an item out of a list is taking it out of the array behind it. -/
lemma perform_listGet (hlist : w.heap.get? address = some (.list (.ref array)))
    (hitems : w.heap.get? array = some (.array items)) (index : Int32) :
    LibraryMethod.listGet.perform w.heap (.ref address) [.raw index]
      = (Heap.position items index).map fun place =>
        (.done (some (items[place]?.getD .null)), w.heap) := by
  cases hplace : Heap.position items index <;>
    simp [LibraryMethod.perform, Heap.rawInt, Heap.backing_of_list hlist hitems, hplace, bind,
      Except.bind, Except.map]

/-- Texts are compared by their characters. -/
lemma step_textTruth {n ident ident' : Nat} {t t' : String} {op : BinaryOp}
    (hcode : s.Has pc (.callVirtual .stringEquals ::
      truthCode (if op = .eq then .ifNonzero else .ifZero) n)) :
    ∃ k, s.Steps ⟨pc, .text ident' t' :: .text ident t :: stack, locals, w⟩ k
      ⟨pc + 9, .boolean (if op = .eq then t' = t else t' ≠ t) :: stack, locals, w⟩ := by
  rw [has_cons] at hcode
  have compared : s.Steps ⟨pc, .text ident' t' :: .text ident t :: stack, locals, w⟩ 1
      ⟨pc + 1, .raw (if t' = t then 1 else 0) :: stack, locals, w⟩ :=
    step_call hcode.1 [.text ident' t'] rfl (by simp [LibraryMethod.perform]; rfl) rfl rfl
  by_cases heq : op = .eq
  · simp only [heq, if_true] at hcode ⊢
    obtain ⟨k, hk⟩ := step_truth hcode.2 fun q hi hq => step_ifNonzero hi hq
    have taken : decide ((if t' = t then 1 else 0 : Int32) ≠ 0) = decide (t' = t) := by
      split <;> simp_all
    exact ⟨_, compared.trans (taken ▸ hk)⟩
  · simp only [heq, if_false] at hcode ⊢
    obtain ⟨k, hk⟩ := step_truth hcode.2 fun q hi hq => step_ifZero hi hq
    have taken : decide ((if t' = t then 1 else 0 : Int32) = 0) = decide (t' ≠ t) := by
      split <;> simp_all
    exact ⟨_, compared.trans (taken ▸ hk)⟩

end Site

namespace Data

open Lowering Typing
open Direct (Scalar Represents combine chopped scalarTy)

variable {s : Site} {Γ : Context} {slots : Slots} {hidden : Set Nat} {literals : Nat} {env : Env}
  {scope : ScopeId} {t u : Supply} {pc : Nat} {stack : List Value}

/-! ## Single values -/

lemma step_downcast {locals : Array Value} {w : World} {value : Value} {d : Datum} {ty : Ty}
    (hd : Denotes w.heap hidden value d) (hty : d.HasTy ty) (hcode : s.Has pc (downcast ty)) :
    ∃ k, s.Steps ⟨pc, value :: stack, locals, w⟩ k
      ⟨pc + (downcast ty).length, value :: stack, locals, w⟩ := by
  rw [downcast] at hcode ⊢
  split at hcode
  · next owner howner =>
      exact ⟨1, Site.step_cast (Site.has_cons.1 hcode).1 (hd.checkCast hty howner)⟩
  · exact ⟨0, .refl s _⟩

/-- An element that is taken out of a list is checked, unless it is a list itself. -/
lemma step_elementCode {locals : Array Value} {w : World} {value : Value} {d : Datum} {ty : Ty}
    (hd : Denotes w.heap hidden value d) (hty : d.HasTy ty) (hcode : s.Has pc (elementCode ty)) :
    ∃ k, s.Steps ⟨pc, value :: stack, locals, w⟩ k
      ⟨pc + (elementCode ty).length, value :: stack, locals, w⟩ := by
  by_cases hlist : ty.isList = true
  · rw [elementCode, if_pos hlist]
    exact ⟨0, .refl s _⟩
  · rw [elementCode, if_neg hlist] at hcode ⊢
    exact step_downcast hd hty hcode

lemma scalarTy_of_primitive {ty : Ty} (h : ty.isPrimitive = true) : scalarTy ty = true := by
  cases ty <;> simp [Ty.isPrimitive] at h <;> rfl

/-! ## Operators -/

lemma isData_operand {symbols : SymbolTable} {e operand : Expr} {last : List Instruction}
    (h : UnaryCode t e operand last u) (hdata : isData symbols scope e = true) :
    isData symbols scope operand = true := by
  cases h <;> simpa [isData] using hdata

lemma isData_operands {symbols : SymbolTable} {e lhs rhs : Expr} {middle last : List Instruction}
    (h : BinaryCode t e lhs rhs middle last u) (hdata : isData symbols scope e = true) :
    isData symbols scope lhs = true ∧ isData symbols scope rhs = true := by
  cases h with
  | arith _ _ _ | scalar _ _ | text _ _ | identity _ _ =>
      simp only [isData, Bool.and_eq_true] at hdata
      exact ⟨hdata.1.2, hdata.2⟩
  | index _ _ => simpa [isData, areData] using hdata

lemma yields_leaf {e : Expr} {code : List Instruction} (h : LeafCode env scope t e code u)
    (hΓ : env.symbols = Γ.symbols) (ht : Γ.typed scope e = true)
    (hdata : isData Γ.symbols scope e = true) (hslots : u.slots.Within slots)
    (hcode : s.Has pc code) {locals : Array Value} {w : World} {store : Store}
    (hholds : Holds Γ slots hidden ⟨pc, stack, locals, w⟩ store) :
    Yields s Γ slots hidden literals ⟨pc, stack, locals, w⟩ (pc + code.length) stack e.ty
      (eval e store) := by
  cases h with
  | int =>
      simp only [Site.has_cons] at hcode
      simp only [Context.typed, decide_eq_true_eq] at ht
      rw [eval]
      exact .pushed (Site.step_integerOf hcode.1 hcode.2.1) (.refl _) rfl rfl hholds
        (hasTy_scalar.2 ht) (.scalar (.int _))
  | @bool note b =>
      simp only [Site.has_cons] at hcode
      simp only [Context.typed, decide_eq_true_eq] at ht
      have boxed : b = ((if b then 1 else 0 : Int32) != 0) := by cases b <;> rfl
      rw [eval]
      exact .pushed (Site.step_booleanOf hcode.1 hcode.2.1) (.refl _) rfl rfl hholds
        (hasTy_scalar.2 ht) (.scalar (boxed ▸ .bool b))
  | str =>
      simp only [Site.has_cons] at hcode
      simp only [Context.typed, decide_eq_true_eq] at ht
      rw [eval]
      exact .pushed (Site.step_text hcode.1) (w.heap.within_texts _) rfl rfl hholds
        (hasTy_scalar.2 ht) (.scalar (.text _ _))
  | @fn note name binding hl =>
      simp [isData, SymbolTable.functionBinding?, ← hΓ, hl, Binding.fn?] at hdata
  | @var note name ty _ hty =>
      simp only [Context.typed, decide_eq_true_eq] at ht
      rcases Context.nameTy?_eq_some ht with ⟨_, signature, hl, -, -⟩ | ⟨v, hl, hv, hvars⟩
      · simp [variableTy?, hΓ, hl] at hty
      · obtain rfl : note.ty = ty := by simpa [variableTy?, hΓ, hl, hv] using hty
        obtain ⟨hstore, held⟩ := hholds.vars name note.ty hvars
        have hvalue := held _ (Supply.get?_slotOf hslots)
        rw [Site.has_cons] at hcode
        obtain ⟨k, hk⟩ := step_downcast hvalue hstore hcode.2
        rw [eval]
        exact .pushed ((Site.step_load hcode.1).trans hk) (.refl _) rfl
          (by rw [List.length_cons]; omega) hholds hstore hvalue
  | pointer => simp [isData] at hdata

lemma eval_count {note : Note} {op : UnaryOp} {operand : Expr} (hop : op = .inc ∨ op = .dec) :
    eval (.unary note op operand) = count op operand := by
  rcases hop with rfl | rfl <;> simp [eval]

lemma count_ident {note : Note} {op : UnaryOp} {name : String} {store : Store} {a : Int32}
    (h : store name = .scalar (.int a)) :
    count op (.ident note name) store = .ok (.scalar (.int (if op = .inc then a + 1 else a - 1)))
      (Function.update store name (.scalar (.int (if op = .inc then a + 1 else a - 1)))) := by
  simp only [count, Expr.ident?, h]

/-- What an operator does to the value of its operand. -/
lemma yields_unary {e operand : Expr} {last : List Instruction}
    (h : UnaryCode t e operand last u) (ht : Γ.typed scope e = true)
    (hslots : u.slots.Within slots) (hcode : s.Has pc last) {p : Point} {store : Store}
    (hoperand : Yields s Γ slots hidden literals p pc stack operand.ty (eval operand store)) :
    Yields s Γ slots hidden literals p (pc + last.length) stack e.ty (eval e store) := by
  cases h with
  | @neg note _ hint =>
      simp only [Context.typed, unaryTyped, Bool.and_eq_true, decide_eq_true_eq] at ht
      simp only [Site.has_cons, Nat.add_assoc, Nat.reduceAdd] at hcode
      obtain ⟨hunbox, hneg, hbox, -⟩ := hcode
      rw [eval]
      refine hoperand.bind fun d store value locals w hty _ hvalue hholds => ?_
      obtain ⟨a, rfl, rfl⟩ := hvalue.of_int (hint ▸ hty)
      exact .pushed (((Site.step_unboxInt hunbox).trans (Site.step_neg hneg)).trans
        (Site.step_boxInt hbox)) (.refl _) rfl rfl hholds (hasTy_scalar.2 ht.1.2)
        (.scalar (.int (-a)))
  | @not note _ hbool =>
      simp only [Context.typed, unaryTyped, Bool.and_eq_true, decide_eq_true_eq] at ht
      simp only [Site.has_cons, Nat.add_assoc, Nat.reduceAdd] at hcode
      obtain ⟨hunbox, hone, hxor, hbox, -⟩ := hcode
      rw [eval]
      refine hoperand.bind fun d store value locals w hty _ hvalue hholds => ?_
      obtain ⟨b, rfl, rfl⟩ := hvalue.of_bool (hbool ▸ hty)
      have flipped : (!b) = ((if b then 1 else 0 : Int32) ^^^ 1 != 0) := by cases b <;> rfl
      exact .pushed ((((Site.step_unboxBool hunbox).trans (Site.step_int hone)).trans
        (Site.step_arith hxor rfl)).trans (Site.step_boxBool hbox)) (.refl _) rfl rfl hholds
        (hasTy_scalar.2 ht.1.2) (.scalar (flipped ▸ .bool (!b)))
  | @count note _ op name _ hop hname hint =>
      simp only [Site.has_cons, Nat.add_assoc, Nat.reduceAdd] at hcode
      obtain ⟨hunbox, hone, harith, hbox, hdup, hstore, -⟩ := hcode
      obtain ⟨note', rfl⟩ := Expr.ident?_eq_some.1 hname
      obtain ⟨hint', hvars⟩ := Context.vars_of_countTyped hop ht
      have hslot := Supply.get?_slotOf hslots
      -- The operand is a variable: its value is read here, and its slot is written below.
      rw [eval] at hoperand
      obtain ⟨hty, n, value, locals, w, hsteps, hkeeps, hvalue, hholds⟩ := hoperand
      obtain ⟨a, rfl, ha⟩ := hvalue.of_int (hint ▸ hty)
      let b : Int32 := if op = .inc then a + 1 else a - 1
      have counted : eval (.unary note op (.ident note' name)) store
          = .ok (.scalar (.int b)) (Function.update store name (.scalar (.int b))) := by
        rw [eval_count hop, count_ident ha]
      have added : IntOp.apply (if op = .inc then .add else .sub) a 1 = .ok b := by
        rcases hop with rfl | rfl <;> rfl
      rw [counted]
      refine .after hsteps hkeeps ?_
      have hb : (Datum.scalar (.int b)).HasTy .int := .scalar (.int b)
      exact ⟨hasTy_scalar.2 hint', _, _, _, _, (((((Site.step_unboxInt hunbox).trans
        (Site.step_int hone)).trans (Site.step_arith harith added)).trans
        (Site.step_boxInt hbox)).trans (Site.step_dup hdup)).trans (Site.step_store hstore),
        keeps_write (.inl ⟨name, hvars, hslot⟩) rfl (.refl _) rfl, .scalar (.int b),
        hholds.update hvars hslot hb (.scalar (.int b)) rfl rfl⟩
  | @lenText note _ htext =>
      simp only [Context.typed, Bool.and_eq_true, decide_eq_true_eq] at ht
      simp only [Site.has_cons, Nat.add_assoc, Nat.reduceAdd] at hcode
      obtain ⟨hlength, hbox, -⟩ := hcode
      rw [eval]
      refine hoperand.bind fun d store value locals w hty _ hvalue hholds => ?_
      obtain ⟨ident, text, rfl, rfl⟩ := hvalue.of_text (htext ▸ hty)
      have measured : s.Steps ⟨pc, .text ident text :: stack, locals, w⟩ 1
          ⟨pc + 1, .raw (Int32.ofNat text.length) :: stack, locals, w⟩ :=
        Site.step_call hlength [] rfl rfl rfl rfl
      exact .pushed (measured.trans (Site.step_boxInt hbox)) (.refl _) rfl rfl hholds
        (hasTy_scalar.2 ht.1.2) (.scalar (.int _))
  | @lenList note _ element hlist =>
      simp only [Context.typed, Bool.and_eq_true, decide_eq_true_eq] at ht
      simp only [Site.has_cons, Nat.add_assoc, Nat.reduceAdd] at hcode
      obtain ⟨hlength, hbox, -⟩ := hcode
      rw [eval]
      refine hoperand.bind fun d store value locals w hty _ hvalue hholds => ?_
      obtain ⟨address, array, items, data, rfl, rfl, hobj, hitems, hsize, -, -⟩ :=
        hvalue.of_list (hlist ▸ hty)
      have measured : s.Steps ⟨pc, .ref address :: stack, locals, w⟩ 1
          ⟨pc + 1, .raw (Int32.ofNat data.length) :: stack, locals, w⟩ :=
        hsize ▸ Site.step_listSize hlength hobj hitems
      exact .pushed (measured.trans (Site.step_boxInt hbox)) (.refl _) rfl rfl hholds
        (hasTy_scalar.2 ht.1.2) (.scalar (.int _))
  | @chop note _ htext =>
      simp only [Context.typed, Bool.and_eq_true, decide_eq_true_eq] at ht
      rw [eval]
      refine hoperand.bind fun d store value locals w hty _ hvalue hholds => ?_
      obtain ⟨ident, text, rfl, rfl⟩ := hvalue.of_text (htext ▸ hty)
      have hcall : s.code[pc + 6]? = some (.callVirtual .stringSubstring) := hcode 6 _ rfl
      have performed := Site.perform_substring w.heap ident text
      by_cases hneg : Site.lastPlace text < 0
      · rw [if_pos hneg] at performed
        have failed : chopped (.text text) = .error .stringIndex := if_pos hneg
        simp only [apply, failed]
        refine .after (Site.step_chop hcode) (keeps_of_same rfl (.refl _) rfl) ?_
        exact .failed (hholds.same rfl (.refl _)) (Site.fails_receiver (by decide) hcall
          [.raw 0, .raw (Site.lastPlace text)] rfl performed rfl) (.failed (.stringIndex _ _ _))
      · rw [if_neg hneg] at performed
        have cut : chopped (.text text)
            = .ok (.text (String.ofList (text.toList.take (Site.lastPlace text).toInt.toNat))) :=
          if_neg hneg
        simp only [apply, cut]
        exact .pushed ((Site.step_chop hcode).trans (Site.step_call hcall
          [.raw 0, .raw (Site.lastPlace text)] rfl performed rfl rfl))
          (w.heap.within_texts _) rfl rfl
          hholds (hasTy_scalar.2 ht.1.2) (.scalar (.text _ _))

/-- Taking an item out of a list is taking it out of the array behind it. -/
lemma select_of_items {items : Array Value} {data : List Datum} (hsize : items.size = data.length)
    (index : Int32) :
    (∃ place v d, Heap.position items index = .ok place ∧ items[place]? = some v ∧
        data[place]? = some d ∧ select (.list data) (.scalar (.int index)) = .ok d) ∨
      Heap.position items index = .error (.indexOutOfBounds index items.size) ∧
        select (.list data) (.scalar (.int index)) = .error (.outOfBounds index items.size) := by
  rw [Heap.position, select]
  by_cases hneg : index < 0
  · rw [if_pos hneg, if_pos hneg, hsize]
    exact .inr ⟨rfl, rfl⟩
  · rw [if_neg hneg, if_neg hneg]
    by_cases hlt : index.toInt.toNat < items.size
    · have hitem := Array.getElem?_eq_getElem hlt
      have hdatum := List.getElem?_eq_getElem (hsize ▸ hlt)
      rw [if_pos hlt, hdatum]
      exact .inl ⟨_, _, _, rfl, hitem, hdatum, rfl⟩
    · rw [if_neg hlt, List.getElem?_eq_none (by omega), hsize]
      exact .inr ⟨rfl, rfl⟩

/-- What an operator does to the values of its operands: `pc` is where the first is done, `pc'`
where the second is. -/
lemma yields_binary {e lhs rhs : Expr} {middle last : List Instruction} {pc' : Nat}
    (h : BinaryCode t e lhs rhs middle last u) (ht : Γ.typed scope e = true)
    (hdata : isData Γ.symbols scope e = true) (hmiddle : s.Has pc middle) (hlast : s.Has pc' last)
    {p : Point} {store : Store}
    (hlhs : Yields s Γ slots hidden literals p pc stack lhs.ty (eval lhs store))
    (hrhs : ∀ stack locals w store,
      Holds Γ slots hidden ⟨pc + middle.length, stack, locals, w⟩ store →
      Yields s Γ slots hidden literals ⟨pc + middle.length, stack, locals, w⟩ pc' stack rhs.ty
        (eval rhs store)) :
    Yields s Γ slots hidden literals p (pc' + last.length) stack e.ty (eval e store) := by
  have unmoved {p q : Point} (hlocals : q.locals = p.locals) (hworld : q.world = p.world) :
      Keeps Γ slots literals p q :=
    keeps_of_same hlocals (hworld ▸ .refl _) (hworld ▸ rfl)
  cases h with
  | @arith note op _ _ hcond hint hint' =>
      have hty := Context.ty_of_arith hcond ht
      simp only [Site.has_cons, Nat.add_assoc, Nat.reduceAdd] at hmiddle hlast
      obtain ⟨hunbox, harith, hbox, -⟩ := hlast
      rw [eval]
      refine hlhs.bind fun d store value locals w hd _ hvalue hholds => ?_
      obtain ⟨a, rfl, rfl⟩ := hvalue.of_int (hint ▸ hd)
      refine .after (Site.step_unboxInt hmiddle.1) (unmoved rfl rfl) ?_
      refine (hrhs _ _ _ _ (hholds.same rfl (.refl _))).bind
        fun d store value locals w hd _ hvalue hholds => ?_
      obtain ⟨b, rfl, rfl⟩ := hvalue.of_int (hint' ▸ hd)
      refine .after (Site.step_unboxInt hunbox) (unmoved rfl rfl) ?_
      have hholds := hholds.same (q := ⟨pc' + 1, .raw b :: .raw a :: stack, locals, w⟩)
        rfl (.refl _)
      rcases Direct.combine_of_arith hcond a b with ⟨c, happly, hcombine⟩ | ⟨happly, hcombine⟩
      · simp only [apply₂, hcombine]
        exact .pushed ((Site.step_arith harith happly).trans (Site.step_boxInt hbox)) (.refl _) rfl
          rfl hholds (hasTy_scalar.2 hty) (.scalar (.int c))
      · simp only [apply₂, hcombine]
        exact .failed hholds (Site.fails_arith harith happly) (.failed .divisionByZero)
  | @scalar note op _ _ cond cond' hcond hcomparison =>
      have hty := Context.ty_of_comparison hcond ht
      obtain ⟨hprimitive, hprimitive'⟩ := primitive_of_scalar hcomparison
      rw [Site.has_append] at hlast
      rw [eval]
      refine hlhs.bind fun d store value locals w hd _ hvalue hholds => ?_
      obtain ⟨v, rfl, hv, hvalue⟩ := hvalue.of_scalar hd (scalarTy_of_primitive hprimitive)
      refine .after (Direct.step_unboxing hvalue hv hprimitive hmiddle) (unmoved rfl rfl) ?_
      refine (hrhs _ _ _ _ (hholds.same rfl (.refl _))).bind
        fun d store value locals w hd _ hvalue hholds => ?_
      obtain ⟨v', rfl, hv', hvalue⟩ := hvalue.of_scalar hd (scalarTy_of_primitive hprimitive')
      refine .after (Direct.step_unboxing hvalue hv' hprimitive' hlast.1) (unmoved rfl rfl) ?_
      have hcombine := Direct.combine_of_scalar hcond (hv.symm ▸ hv'.symm ▸ hcomparison)
      obtain ⟨k, hk⟩ := Site.step_truth hlast.2 fun q hi hq => Site.step_ifInt hi hq
      simp only [apply₂, hcombine]
      exact .pushed hk (.refl _) rfl (by simp [truthCode, Nat.add_assoc])
        (hholds.same rfl (.refl _))
        (hasTy_scalar.2 hty) (.scalar (.bool _))
  | @text note op _ _ cond hcond hcomparison =>
      have hty := Context.ty_of_comparison hcond ht
      obtain ⟨htext, htext'⟩ := string_of_text hcomparison
      rw [eval]
      refine hlhs.bind fun d store value locals w hd _ hvalue hholds => ?_
      obtain ⟨ident, t, rfl, rfl⟩ := hvalue.of_text (htext ▸ hd)
      refine (hrhs _ _ _ _ hholds).bind fun d store value locals w hd _ hvalue hholds => ?_
      obtain ⟨ident', t', rfl, rfl⟩ := hvalue.of_text (htext' ▸ hd)
      obtain ⟨k, hk⟩ := Site.step_textTruth hlast
      have hcombine := Direct.combine_of_text t t' (htext ▸ htext' ▸ hcomparison)
      simp only [apply₂, hcombine]
      exact .pushed hk (.refl _) rfl (by simp [truthCode]) hholds (hasTy_scalar.2 hty)
        (.scalar (.bool _))
  | identity hcond hcomparison =>
      -- Lists and function pointers, which are compared by address, are not compared in data.
      simp only [isData, Bool.and_eq_true] at hdata
      have href := (reference_of_identity hcomparison).1
      cases hlty : lhs.ty <;> simp [hlty, scalarTy, Ty.isReference] at hdata href
  | @index note _ _ element helement hint =>
      simp only [Context.typed, Bool.and_eq_true, decide_eq_true_eq] at ht
      obtain ⟨⟨⟨hlist, -⟩, -⟩, -⟩ := ht
      obtain rfl : note.ty = element := by simpa [hlist, Ty.element?] using helement
      simp only [Site.has_cons] at hlast
      obtain ⟨hunbox, hget, hcast⟩ := hlast
      rw [eval]
      refine hlhs.bind fun d store list locals w hd _ hlistvalue hholds => ?_
      refine (hrhs _ _ _ _ hholds).bind fun d' store value locals w' hd' hwithin hvalue hholds => ?_
      obtain ⟨i, rfl, rfl⟩ := hvalue.of_int (hint ▸ hd')
      -- The list was there before the index was evaluated, and still stands for the same items.
      obtain ⟨address, array, items, data, rfl, rfl, hobj, hitems, hsize, hall, hdenotes⟩ :=
        (hlistvalue.within hwithin).of_list (hlist ▸ hd)
      refine .after (Site.step_unboxInt hunbox) (unmoved rfl rfl) ?_
      have hholds := hholds.same
        (q := ⟨pc' + 1, .raw i :: .ref address :: stack, locals, w'⟩) rfl (.refl _)
      have performed := Site.perform_listGet hobj hitems i
      rcases select_of_items hsize i with ⟨place, v, d, hplace, hv, hd, hselect⟩ | ⟨hout, hselect⟩
      · rw [hplace, Except.map, hv, Option.getD_some] at performed
        have hdv := hdenotes place v d hv hd
        have hdty := hall d (List.mem_of_getElem? hd)
        obtain ⟨k, hk⟩ := step_elementCode hdv hdty hcast
        rw [hselect]
        exact .pushed ((Site.step_call hget [.raw i] rfl performed rfl rfl).trans hk) (.refl _) rfl
          (by simp only [List.length_cons]; omega) hholds hdty hdv
      · rw [hout] at performed
        rw [hselect]
        exact .failed hholds (Site.fails_receiver (by decide) hget [.raw i] rfl performed rfl)
          (.outOfBounds i items.size)

end Data

end StackBackend
