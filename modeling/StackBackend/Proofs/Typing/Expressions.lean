import StackBackend.Proofs.Lowering.Sequences
import StackBackend.Proofs.Typing.Frames

/-!
# Well-typed expressions deliver values of their types

The code of a well-typed expression pushes a value of the type the expression carries, or stops for
a reason a program may have to stop.

* `secures_leaf`, `secures_unary`, `secures_middle`, `secures_binary` — what the code of a construct
  does once its operands are there;
* `secures_element`, `secures_elements` — arrays are filled element by element, and lists are copied
  into them;
* `secures_expr` — the code of an expression.

The proof goes along `ExprCode`, in the same way as the one that lowered expressions compute their
value, but about types: `null` may be among the operands, and the heap is part of what is looked at.
-/

namespace StackBackend.Typing

open Lowering Conf

variable {s : Site} {n : Nat} {Γ : Context} {slots : Slots} {env : Env} {scope : ScopeId}

/-! ## Single values -/

section Values

variable {pc : Nat} {stack : List Value} {v : Value} {ty : Ty}

/-- A value passes the check for its type. -/
lemma step_downcast (c : Conf Γ slots) (hv : c.memory.HasTy v ty) (hcode : s.Has pc (downcast ty)) :
    ∃ k, s.Steps (c.point pc (v :: stack)) k
      (c.point (pc + (downcast ty).length) (v :: stack)) := by
  rw [downcast] at hcode ⊢
  split at hcode
  · next owner howner =>
      exact ⟨1, Site.step_cast (Site.has_cons.1 hcode).1 (Memory.checkCast_of_hasTy hv howner)⟩
  · exact ⟨0, .refl s _⟩

/-- So does an element that is taken out of a list; one that is a list itself is not checked. -/
lemma step_elementCode (c : Conf Γ slots) (hv : c.memory.HasTy v ty)
    (hcode : s.Has pc (elementCode ty)) :
    ∃ k, s.Steps (c.point pc (v :: stack)) k
      (c.point (pc + (elementCode ty).length) (v :: stack)) := by
  by_cases hlist : ty.isList = true
  · rw [elementCode, if_pos hlist]
    exact ⟨0, .refl s _⟩
  · rw [elementCode, if_neg hlist] at hcode ⊢
    exact step_downcast c hv hcode

/-- Unboxing gives a raw integer, unless there is none. -/
lemma secures_unboxInt (c : Conf Γ slots) (hv : c.memory.HasTy v .int)
    (hi : s.code[pc]? = some (.callVirtual .intValue)) :
    s.Secures n (c.point pc (v :: stack)) fun q => ∃ x, q = c.point (pc + 1) (.raw x :: stack) := by
  cases hv with
  | null => exact .fault (Site.fails_receiver (by decide) hi [] rfl rfl rfl) rfl
  | int a => exact .steps (Site.step_unboxInt hi) ⟨a, rfl⟩

lemma secures_unboxBool (c : Conf Γ slots) (hv : c.memory.HasTy v .bool)
    (hi : s.code[pc]? = some (.callVirtual .booleanValue)) :
    s.Secures n (c.point pc (v :: stack)) fun q => ∃ x, q = c.point (pc + 1) (.raw x :: stack) := by
  cases hv with
  | null => exact .fault (Site.fails_receiver (by decide) hi [] rfl rfl rfl) rfl
  | bool b => exact .steps (Site.step_unboxBool hi) ⟨_, rfl⟩

lemma secures_unboxing (c : Conf Γ slots) (hv : c.memory.HasTy v ty)
    (hprimitive : ty.isPrimitive = true) (hcode : s.Has pc (unboxing ty)) :
    s.Secures n (c.point pc (v :: stack)) fun q =>
      ∃ x, q = c.point (pc + (unboxing ty).length) (.raw x :: stack) := by
  cases ty with
  | int => exact secures_unboxInt c hv (Site.has_cons.1 hcode).1
  | bool => exact secures_unboxBool c hv (Site.has_cons.1 hcode).1
  | _ => simp [Ty.isPrimitive] at hprimitive

/-- Integers can be divided by zero, and that is all. -/
lemma apply_ok_or (op : IntOp) (a b : Int32) :
    (∃ x, op.apply a b = .ok x) ∨ op.apply a b = .error .divisionByZero := by
  cases op with
  | div | rem =>
      by_cases hzero : b = 0
      · exact .inr (if_pos hzero)
      · exact .inl ⟨_, if_neg hzero⟩
  | _ => exact .inl ⟨_, rfl⟩

/-- A number is a place of an array, or out of bounds. -/
lemma position_ok_or (items : Array Value) (index : Int32) :
    (∃ place, Heap.position items index = .ok place ∧ place < items.size) ∨
      Heap.position items index = .error (.indexOutOfBounds index items.size) := by
  rw [Heap.position]
  split
  · exact .inr rfl
  · split
    · next hlt => exact .inl ⟨_, rfl, hlt⟩
    · exact .inr rfl

/-- A comparison of operands gives a truth value. -/
lemma secures_truth {depth literals labels : Nat} (c : Conf Γ slots) {branch : Label → Instruction}
    {operands : List Value} {taken : Bool} (hcode : s.Has pc (truthCode branch labels))
    (hbranch : ∀ q, s.code[pc]? = some (branch ⟨labels⟩) → s.code[q]? = some (.label ⟨labels⟩) →
      s.Steps (c.point pc operands) 1 (c.point (Site.target pc q taken) stack)) :
    s.Secures n (c.point pc operands) (c.Delivers depth literals (pc + 8) stack .bool) := by
  obtain ⟨k, hk⟩ := Site.step_truth hcode hbranch
  exact delivers_of_steps hk (.refl c) rfl (.bool _) rfl

end Values

/-! ## Constructs without operands -/

/-- A new function pointer. -/
lemma secures_closure {pc depth literals : Nat} {name : String} {args : List Ty} {ret : Ty}
    (hname : Γ.functions name = some (args, ret)) (hcode : s.Has pc (closureCode name))
    (c : Conf Γ slots) (stack : List Value) :
    s.Secures n (c.point pc stack) (c.Delivers depth literals (pc + 5) stack (.fptr args ret)) := by
  let M := c.memory.withText.push (.closure (c.locals[0]?.getD .null) name)
  have within : c.memory.Within M :=
    c.memory.within_withText.trans (c.memory.withText.within_push _)
  exact delivers_of_steps (Site.step_closure hcode) (evolves_withMemory within c.printed c.opened)
    rfl
    (.closure (c.memory.withText.get?_push _) hname) rfl

lemma secures_leaf {t u : Supply} {e : Expr} {code : List Instruction}
    (h : LeafCode env scope t e code u) (hΓ : env.symbols = Γ.symbols)
    (ht : Γ.typed scope e = true) (hslots : u.slots.Within slots) {pc depth literals : Nat}
    (hcode : s.Has pc code) (c : Conf Γ slots) (stack : List Value) :
    s.Secures n (c.point pc stack) (c.Delivers depth literals (pc + code.length) stack e.ty) := by
  cases h with
  | int =>
      simp only [Site.has_cons] at hcode
      simp only [Context.typed, decide_eq_true_eq] at ht
      exact delivers_of_steps (Site.step_integerOf hcode.1 hcode.2.1) (.refl c) ht (.int _) rfl
  | bool =>
      simp only [Site.has_cons] at hcode
      simp only [Context.typed, decide_eq_true_eq] at ht
      exact delivers_of_steps (Site.step_booleanOf hcode.1 hcode.2.1) (.refl c) ht (.bool _) rfl
  | str =>
      simp only [Site.has_cons] at hcode
      simp only [Context.typed, decide_eq_true_eq] at ht
      exact delivers_of_steps (Site.step_text hcode.1)
        (evolves_withMemory c.memory.within_withText c.printed c.opened) ht (.text _ _) rfl
  | @fn note name binding hl =>
      simp only [Context.typed, decide_eq_true_eq] at ht
      rcases Context.nameTy?_eq_some ht with ⟨_, signature, -, hname, hty⟩ | ⟨v, hl', -, -⟩
      · rw [Expr.ty, Expr.note, hty]
        exact secures_closure hname hcode c stack
      · simp [hΓ, hl'] at hl
  | @var note name ty _ hty =>
      simp only [Context.typed, decide_eq_true_eq] at ht
      rcases Context.nameTy?_eq_some ht with ⟨_, signature, hl, -, -⟩ | ⟨v, hl, hv, hvars⟩
      · simp [variableTy?, hΓ, hl] at hty
      · obtain rfl : note.ty = ty := by simpa [variableTy?, hΓ, hl, hv] using hty
        have held := c.fits hvars (Supply.get?_slotOf hslots)
        rw [Site.has_cons] at hcode
        obtain ⟨k, hk⟩ := step_downcast c held hcode.2
        exact delivers_of_steps ((Site.step_load hcode.1).trans hk) (.refl c) rfl held
          (by rw [List.length_cons]; omega)
  | @pointer note name =>
      simp only [Context.typed, decide_eq_true_eq] at ht
      obtain ⟨signature, hname, hty⟩ := Option.map_eq_some_iff.1 ht
      rw [Expr.ty, Expr.note, ← hty]
      exact secures_closure hname hcode c stack

/-! ## Operators -/

/-- What an operator does to the value of its operand. -/
lemma secures_unary {t u : Supply} {e operand : Expr} {last : List Instruction}
    (h : UnaryCode t e operand last u) (ht : Γ.typed scope e = true)
    (hslots : u.slots.Within slots) {pc depth literals : Nat} (hcode : s.Has pc last)
    (c : Conf Γ slots) {v : Value} (hv : c.memory.HasTy v operand.ty) (stack : List Value) :
    s.Secures n (c.point pc (v :: stack))
      (c.Delivers depth literals (pc + last.length) stack e.ty) := by
  cases h with
  | neg hint =>
      simp only [Context.typed, unaryTyped, Bool.and_eq_true, decide_eq_true_eq] at ht
      simp only [Site.has_cons, Nat.add_assoc, Nat.reduceAdd] at hcode
      obtain ⟨hunbox, hneg, hbox, -⟩ := hcode
      refine (secures_unboxInt c (hint ▸ hv) hunbox).bind ?_
      rintro _ ⟨x, rfl⟩
      exact delivers_of_steps ((Site.step_neg hneg).trans (Site.step_boxInt hbox)) (.refl c) ht.1.2
        (.int _) rfl
  | not hbool =>
      simp only [Context.typed, unaryTyped, Bool.and_eq_true, decide_eq_true_eq] at ht
      simp only [Site.has_cons, Nat.add_assoc, Nat.reduceAdd] at hcode
      obtain ⟨hunbox, hone, hxor, hbox, -⟩ := hcode
      refine (secures_unboxBool c (hbool ▸ hv) hunbox).bind ?_
      rintro _ ⟨x, rfl⟩
      exact delivers_of_steps (((Site.step_int hone).trans (Site.step_arith hxor rfl)).trans
        (Site.step_boxBool hbox)) (.refl c) ht.1.2 (.bool _) rfl
  | @count note _ op name _ hop hname hint =>
      simp only [Site.has_cons, Nat.add_assoc, Nat.reduceAdd] at hcode
      obtain ⟨hunbox, hone, harith, hbox, hdup, hstore, -⟩ := hcode
      obtain ⟨note', rfl⟩ := Expr.ident?_eq_some.1 hname
      obtain ⟨hty, hvars⟩ := Context.vars_of_countTyped hop ht
      have hslot := Supply.get?_slotOf hslots
      refine (secures_unboxInt c (hint ▸ hv) hunbox).bind ?_
      rintro _ ⟨x, rfl⟩
      obtain ⟨y, hy⟩ : ∃ y, IntOp.apply (if op = .inc then .add else .sub) x 1 = .ok y := by
        rcases hop with rfl | rfl <;> exact ⟨_, rfl⟩
      exact delivers_of_steps (((((Site.step_int hone).trans (Site.step_arith harith hy)).trans
        (Site.step_boxInt hbox)).trans (Site.step_dup hdup)).trans (Site.step_store hstore))
        (evolves_write (fits_var hvars hslot (.int y)) (not_reserved_var hslot)) hty (.int y) rfl
  | lenText htext =>
      simp only [Context.typed, Bool.and_eq_true, decide_eq_true_eq] at ht
      simp only [Site.has_cons] at hcode
      rw [htext] at hv
      cases hv with
      | null => exact .fault (Site.fails_receiver (by decide) hcode.1 [] rfl rfl rfl) rfl
      | text ident text =>
          have measured : s.Steps (c.point pc (.text ident text :: stack)) 1
              (c.point (pc + 1) (.raw (Int32.ofNat text.length) :: stack)) :=
            Site.step_call hcode.1 [] rfl rfl rfl rfl
          exact delivers_of_steps (measured.trans (Site.step_boxInt hcode.2.1)) (.refl c) ht.1.2
            (.int _) rfl
  | @lenList _ _ element hlist =>
      simp only [Context.typed, Bool.and_eq_true, decide_eq_true_eq] at ht
      simp only [Site.has_cons] at hcode
      rw [hlist] at hv
      rcases Memory.null_or_items hv with rfl | ⟨address, array, items, rfl, hobj, hitems, -, -⟩
      · have failed : LibraryMethod.listSize.perform c.memory.heap .null []
            = .error (.typeMismatch ClassName.list "null") := by
          simp only [LibraryMethod.perform, Heap.listItems_null]
          rfl
        exact .fault (Site.fails_receiver (by decide) hcode.1 [] rfl failed rfl) rfl
      · have measured : LibraryMethod.listSize.perform c.memory.heap (.ref address) []
            = .ok (.done (some (.raw (Int32.ofNat items.size))), c.memory.heap) := by
          simp only [LibraryMethod.perform,
            Heap.listItems_eq_ok.2 (Heap.items?_of_list hobj hitems), bind, Except.bind]
        have called : s.Steps (c.point pc (.ref address :: stack)) 1
            (c.point (pc + 1) (.raw (Int32.ofNat items.size) :: stack)) :=
          Site.step_call hcode.1 [] rfl measured rfl rfl
        exact delivers_of_steps (called.trans (Site.step_boxInt hcode.2.1)) (.refl c) ht.1.2
          (.int _) rfl
  | chop htext =>
      simp only [Context.typed, Bool.and_eq_true, decide_eq_true_eq] at ht
      rw [htext] at hv
      cases hv with
      | null =>
          have hlength : s.code[pc + 1]? = some (.callVirtual .stringLength) := hcode 1 _ rfl
          refine .step (Site.step_dup (hcode 0 _ rfl)) ?_
          exact .fault (Site.fails_receiver (by decide) hlength [] rfl rfl rfl) rfl
      | text ident text =>
          have hcall : s.code[pc + 6]? = some (.callVirtual .stringSubstring) := hcode 6 _ rfl
          have performed := Site.perform_substring c.memory.heap ident text
          refine .step (Site.step_chop hcode) ?_
          by_cases hneg : Site.lastPlace text < 0
          · rw [if_pos hneg] at performed
            exact .fault (Site.fails_receiver (by decide) hcall [.raw 0, .raw (Site.lastPlace text)]
              rfl performed rfl) rfl
          · rw [if_neg hneg] at performed
            let c' := c.withMemory _ c.memory.within_withText.hasTy c.printed c.opened
            have cut : s.Steps (c.point (pc + 6) _) 1 (c'.point (pc + 7) (_ :: stack)) :=
              Site.step_call hcall [.raw 0, .raw (Site.lastPlace text)] rfl performed rfl rfl
            exact delivers_of_steps cut
              (evolves_withMemory c.memory.within_withText c.printed c.opened)
              ht.1.2 (.text _ _) rfl

/-- What has become of the first operand when the second is evaluated: it is unboxed, or still what
it was. -/
def Kept (c : Conf Γ slots) (middle : List Instruction) (ty : Ty) (x : Value) : Prop :=
  if middle = [] then c.memory.HasTy x ty else ∃ a, x = .raw a

lemma Kept.evolves {c c' : Conf Γ slots} {middle : List Instruction} {ty : Ty} {x : Value}
    {depth literals : Nat} (h : Kept c middle ty x) (hevolves : c.Evolves depth literals c') :
    Kept c' middle ty x := by
  unfold Kept at h ⊢
  split
  · next hempty =>
      rw [if_pos hempty] at h
      exact hevolves.memory.hasTy h
  · next hunboxed => rwa [if_neg hunboxed] at h

/-- Numbers and truth values are unboxed. -/
lemma kept_unboxing {c : Conf Γ slots} {ty : Ty} {x : Value} (h : ty.isPrimitive = true) :
    Kept c (unboxing ty) ty x ↔ ∃ a, x = .raw a := by
  cases ty with
  | int | bool => rfl
  | _ => simp [Ty.isPrimitive] at h

/-- The code between the operands. -/
lemma secures_middle {t u : Supply} {e lhs rhs : Expr} {middle last : List Instruction}
    (h : BinaryCode t e lhs rhs middle last u) {pc : Nat} (hcode : s.Has pc middle)
    (c : Conf Γ slots) {v : Value} (hv : c.memory.HasTy v lhs.ty) (stack : List Value) :
    s.Secures n (c.point pc (v :: stack)) fun q =>
      ∃ x, Kept c middle lhs.ty x ∧ q = c.point (pc + middle.length) (x :: stack) := by
  cases h with
  | arith _ hint _ =>
      refine (secures_unboxInt c (hint ▸ hv) (Site.has_cons.1 hcode).1).bind ?_
      rintro _ ⟨a, rfl⟩
      exact .here ⟨.raw a, ⟨a, rfl⟩, rfl⟩
  | scalar _ hcomparison =>
      have hprimitive := (primitive_of_scalar hcomparison).1
      refine (secures_unboxing c hv hprimitive hcode).bind ?_
      rintro _ ⟨a, rfl⟩
      exact .here ⟨.raw a, (kept_unboxing hprimitive).2 ⟨a, rfl⟩, rfl⟩
  | text _ _ | identity _ _ | index _ _ => exact .here ⟨v, hv, rfl⟩

/-- What an operator does to the values of its operands. -/
lemma secures_binary {t u : Supply} {e lhs rhs : Expr} {middle last : List Instruction}
    (h : BinaryCode t e lhs rhs middle last u) (ht : Γ.typed scope e = true)
    {pc depth literals : Nat} (hcode : s.Has pc last) (c : Conf Γ slots) {x v : Value}
    (hx : Kept c middle lhs.ty x) (hv : c.memory.HasTy v rhs.ty) (stack : List Value) :
    s.Secures n (c.point pc (v :: x :: stack))
      (c.Delivers depth literals (pc + last.length) stack e.ty) := by
  cases h with
  | @arith note op _ _ hcond _ hint =>
      obtain ⟨a, rfl⟩ := hx
      simp only [Site.has_cons, Nat.add_assoc, Nat.reduceAdd] at hcode
      obtain ⟨hunbox, harith, hbox, -⟩ := hcode
      refine (secures_unboxInt c (hint ▸ hv) hunbox).bind ?_
      rintro _ ⟨b, rfl⟩
      rcases apply_ok_or op.intOp a b with ⟨r, hr⟩ | hzero
      · exact delivers_of_steps ((Site.step_arith harith hr).trans (Site.step_boxInt hbox))
          (.refl c)
          (Context.ty_of_arith hcond ht) (.int r) rfl
      · exact .fault (Site.fails_arith harith hzero) rfl
  | @scalar note op _ _ cond cond' hcond hcomparison =>
      obtain ⟨hprimitive, hprimitive'⟩ := primitive_of_scalar hcomparison
      obtain ⟨a, rfl⟩ := (kept_unboxing hprimitive).1 hx
      rw [Site.has_append] at hcode
      refine (secures_unboxing c hv hprimitive' hcode.1).bind ?_
      rintro _ ⟨b, rfl⟩
      have hty : (Expr.binary note op lhs rhs).ty = .bool := Context.ty_of_comparison hcond ht
      rw [hty, List.length_append, ← Nat.add_assoc]
      exact secures_truth c hcode.2 fun q hi hq => Site.step_ifInt hi hq
  | @text note op _ _ cond hcond hcomparison =>
      rw [Site.has_cons] at hcode
      rw [Kept, if_pos rfl, (string_of_text hcomparison).1] at hx
      have hty : (Expr.binary note op lhs rhs).ty = .bool := Context.ty_of_comparison hcond ht
      rw [hty]
      cases hx with
      | null => exact .fault (Site.fails_receiver (by decide) hcode.1 [v] rfl rfl rfl) rfl
      | text ident text =>
          have compared : ∃ r : Int32, s.Steps (c.point pc (v :: .text ident text :: stack)) 1
              (c.point (pc + 1) (.raw r :: stack)) :=
            ⟨_, Site.step_call hcode.1 [v] rfl rfl rfl rfl⟩
          obtain ⟨r, hr⟩ := compared
          refine .step hr ?_
          by_cases heq : op = .eq
          · simp only [heq, if_true] at hcode ⊢
            exact secures_truth c hcode.2 fun q hi hq => Site.step_ifNonzero hi hq
          · simp only [heq, if_false] at hcode ⊢
            exact secures_truth c hcode.2 fun q hi hq => Site.step_ifZero hi hq
  | @identity note op _ _ cond hcond _ =>
      have hty : (Expr.binary note op lhs rhs).ty = .bool := Context.ty_of_comparison hcond ht
      rw [hty]
      exact secures_truth c hcode fun q hi hq => Site.step_ifRef hi hq
  | @index note _ _ element helement hint =>
      simp only [Context.typed, Bool.and_eq_true, decide_eq_true_eq] at ht
      obtain ⟨⟨⟨hlist, -⟩, -⟩, -⟩ := ht
      obtain rfl : note.ty = element := by simpa [hlist, Ty.element?] using helement
      rw [Kept, if_pos rfl, hlist] at hx
      simp only [Site.has_cons] at hcode
      obtain ⟨hunbox, hget, hcast⟩ := hcode
      refine (secures_unboxInt c (hint ▸ hv) hunbox).bind ?_
      rintro _ ⟨i, rfl⟩
      rcases Memory.null_or_items hx with rfl | ⟨address, array, items, rfl, hobj, hitems, -, hall⟩
      · exact .fault (Site.fails_receiver (by decide) hget [.raw i] rfl rfl rfl) rfl
      · have hbacking := Heap.backing_of_list hobj hitems
        rcases position_ok_or items i with ⟨place, hplace, hlt⟩ | hout
        · have got : LibraryMethod.listGet.perform c.memory.heap (.ref address) [.raw i]
              = .ok (.done (some (items[place]?.getD .null)), c.memory.heap) := by
            simp [LibraryMethod.perform, Heap.rawInt, hbacking, hplace, bind, Except.bind]
          have helement : c.memory.HasTy (items[place]?.getD .null) note.ty := by
            rw [Array.getElem?_eq_getElem hlt]
            exact hall _ (Array.getElem_mem hlt)
          have called : s.Steps (c.point (pc + 1) (.raw i :: .ref address :: stack)) 1
              (c.point (pc + 2) (items[place]?.getD .null :: stack)) :=
            Site.step_call hget [.raw i] rfl got rfl rfl
          obtain ⟨k, hk⟩ := step_elementCode c helement hcast
          exact delivers_of_steps (called.trans hk) (.refl c) rfl helement
            (by simp only [List.length_cons]; omega)
        · have failed : LibraryMethod.listGet.perform c.memory.heap (.ref address) [.raw i]
              = .error (.indexOutOfBounds i items.size) := by
            simp [LibraryMethod.perform, Heap.rawInt, hbacking, hout, bind, Except.bind]
          exact .fault (Site.fails_receiver (by decide) hget [.raw i] rfl failed rfl) rfl

/-! ## Arrays -/

/-- **An element on its way into an array.**  A list is copied. -/
lemma secures_element {ty : Ty} {code : List Instruction} {pc depth literals : Nat}
    (hcode : s.Has pc (openCopy ty ++ code ++ closeCopy ty))
    (hvalue : ∀ (c : Conf Γ slots) (stack : List Value),
      s.Secures n (c.point (pc + (openCopy ty).length) stack)
        (c.Delivers depth literals (pc + (openCopy ty).length + code.length) stack ty))
    (c : Conf Γ slots) (stack : List Value) :
    s.Secures n (c.point pc stack)
      (c.Delivers depth literals (pc + (openCopy ty ++ code ++ closeCopy ty).length) stack ty) := by
  cases ty with
  | list element =>
      have hcode : s.Has pc ([Instruction.new ClassName.list, Instruction.dup] ++ code ++
          [Instruction.construct .listCopy]) := hcode
      rw [Site.has_append, Site.has_append, Site.has_cons, Site.has_cons, List.length_append,
        ← Nat.add_assoc, Site.has_cons] at hcode
      obtain ⟨⟨⟨hnew, hdup, -⟩, -⟩, hclose, -⟩ := hcode
      let M := c.memory.push (.uninit ClassName.list)
      have hM : c.memory.Within M := c.memory.within_push _
      let c' := c.withMemory M hM.hasTy c.printed c.opened
      let copy := c.memory.heap.objects.size
      have made : s.Steps (c.point pc stack) 2
          (c'.point (pc + 2) (.ref copy :: .ref copy :: stack)) :=
        (Site.step_new hnew).trans (Site.step_dup hdup)
      refine .step made ((hvalue c' _).bind ?_)
      rintro _ ⟨c'', v, hevolves, hv, rfl⟩
      obtain ⟨huninit, hfree⟩ := hevolves.memory.rest (c.memory.get?_push _) c.memory.backs_size
      rcases Memory.null_or_items hv with rfl | ⟨address, array, items, rfl, hobj, hitems, -, hall⟩
      · have failed : LibraryMethod.listCopy.perform c''.memory.heap (.ref copy) [.null]
            = .error (.typeMismatch ClassName.list "null") := by
          simp only [LibraryMethod.perform, List.getElem?_cons_zero, Option.getD_some,
            Heap.listItems_null]
          rfl
        exact .fault (Site.fails_receiver (by decide) hclose [.null] rfl failed rfl) rfl
      · obtain ⟨M', hheap, hwithin, hkept, hcopy⟩ := Memory.exists_copy
          (hM.trans hevolves.memory) c.memory.heap.get?_size huninit hfree hall
        have copied : LibraryMethod.listCopy.perform c''.memory.heap (.ref copy) [.ref address]
            = .ok (.done none, M'.heap) := by
          rw [hheap]
          exact Heap.perform_listCopy huninit (Heap.items?_of_list hobj hitems)
        let last := c''.withMemory M' hkept c''.printed c''.opened
        have evolves : c.Evolves depth literals last := ⟨hwithin, hevolves.reserved⟩
        have called : s.Steps (c''.point (pc + 2 + code.length) _) 1
            (last.point (pc + 2 + code.length + 1) (.ref copy :: stack)) :=
          Site.step_construct hclose [.ref address] rfl copied rfl
        exact delivers_of_steps called evolves rfl hcopy
          (by simp [openCopy, closeCopy, Ty.isList]; omega)
  | _ => simpa [openCopy, closeCopy, Ty.isList] using hvalue c stack

/-- A new array in a slot that is no variable's. -/
lemma exists_collects {pc slot : Nat} {key : SlotKey} (hslot : slots.get? key = some slot)
    (hkey : ∀ name, key ≠ .var name) (hcode : s.Has pc (arrayCode slot)) (c : Conf Γ slots)
    (stack : List Value) :
    ∃ c' : Conf Γ slots, s.Steps (c.point pc stack) 4 (c'.point (pc + 4) stack) ∧
      Collects c.memory c' slot c.memory.heap.objects.size [] ∧
      ∀ other, other ≠ slot → c'.locals[other]?.getD .null = c.locals[other]?.getD .null := by
  let M := c.memory.push (.array #[])
  have hM : c.memory.Within M := c.memory.within_push _
  have free : ∀ {name ty}, Γ.vars name = some ty → slots.get? (.var name) = some slot →
      M.HasTy (.ref c.memory.heap.objects.size) ty := by
    intro name ty _ hname
    exact absurd (Slots.get?_inj hslot hname) (hkey name)
  let made := c.withMemory M hM.hasTy c.printed c.opened
  refine ⟨made.write slot (.ref c.memory.heap.objects.size) free, Site.step_array hcode, ?_, ?_⟩
  · exact {
      within := hM
      fresh := c.memory.heap.get?_size
      held := by simp [write, getD_writeLocal]
      free := c.memory.backs_size
      items := ⟨#[], c.memory.get?_push _, .nil⟩ }
  · intro other hother
    simp [made, write, withMemory, getD_writeLocal, hother]

/-- A value is added to an array. -/
lemma exists_collects_add {M₀ : Memory Γ.functions} {c : Conf Γ slots} {pc slot array : Nat}
    {tys : List Ty} (h : Collects M₀ c slot array tys) {v : Value} {ty : Ty}
    (hv : c.memory.HasTy v ty) (hcode : s.Has pc [.callVirtual .arrayAdd, .pop])
    (stack : List Value) :
    ∃ c' : Conf Γ slots, s.Steps (c.point pc (v :: .ref array :: stack)) 2
    (c'.point (pc + 2) stack) ∧
      Collects M₀ c' slot array (tys ++ [ty]) ∧ c'.locals = c.locals := by
  obtain ⟨items, hitems, hall⟩ := h.items
  have hkeeps : ∀ {element}, c.memory.backs array = some element → ∃ items',
      Obj.array (items.push v) = .array items' ∧ ∀ v ∈ items', c.memory.HasTy v element := by
    intro element hback
    simp [h.free] at hback
  let M := c.memory.put (.array (items.push v)) hitems rfl hkeeps
  have hkept : ∀ {v ty}, c.memory.HasTy v ty → M.HasTy v ty := c.memory.hasTy_set _ hitems rfl
  have added : LibraryMethod.arrayAdd.perform c.memory.heap (.ref array) [v]
      = .ok (.done (some (.raw 1)), M.heap) := by
    simp [LibraryMethod.perform, Heap.dereference, hitems, M, Memory.put]
  simp only [Site.has_cons] at hcode
  let last := c.withMemory M hkept c.printed c.opened
  have called : s.Steps (c.point pc (v :: .ref array :: stack)) 1
      (last.point (pc + 1) (.raw 1 :: stack)) :=
    Site.step_call hcode.1 [v] rfl added rfl rfl
  refine ⟨last, called.trans (Site.step_pop hcode.2.1), ?_, rfl⟩
  have stored : M.heap.get? array = some (.array (items.push v)) := by
    show (c.memory.heap.set array _).get? array = _
    rw [Heap.get?_set hitems, if_pos rfl]
  exact {
    within := h.within.put h.fresh hitems rfl hkeeps
    fresh := h.fresh
    held := h.held
    free := h.free
    items := ⟨items.push v, stored, by
      rw [Array.toList_push]
      exact List.rel_append (hall.imp fun _ _ hv => hkept hv) (.cons (hkept hv) .nil)⟩ }

/-- **One more element**, if its code delivers it. -/
lemma secures_add {M₀ : Memory Γ.functions} {c : Conf Γ slots} {pc slot array depth literals : Nat}
    {tys : List Ty} {ty : Ty} {code : List Instruction}
    (hcode : s.Has pc ([Instruction.load slot] ++ code ++
      [Instruction.callVirtual .arrayAdd, Instruction.pop]))
    (hvalue : ∀ (c : Conf Γ slots) (stack : List Value), s.Secures n (c.point (pc + 1) stack)
      (c.Delivers depth literals (pc + 1 + code.length) stack ty))
    (h : Collects M₀ c slot array tys) (hslot : Reserved slots depth literals slot)
    (stack : List Value) :
    s.Secures n (c.point pc stack) (Fills M₀ slot array depth literals c (tys ++ [ty])
      (pc + 1 + code.length + 2) stack) := by
  rw [Site.has_append, Site.has_append, Site.has_cons, List.length_append, ← Nat.add_assoc] at hcode
  obtain ⟨⟨⟨hload, -⟩, -⟩, hadd⟩ := hcode
  have loaded : s.Steps (c.point pc stack) 1 (c.point (pc + 1) (.ref array :: stack)) :=
    h.held ▸ Site.step_load hload
  refine .step loaded ((hvalue c _).bind ?_)
  rintro _ ⟨c₁, v, hevolves, hv, rfl⟩
  obtain ⟨c₂, added, hcollects, hlocals⟩ :=
    exists_collects_add (h.evolves hevolves hslot) hv hadd stack
  exact .steps added ⟨c₂, hcollects, fun hother => hlocals ▸ hevolves.reserved hother, rfl⟩

/-- **A list around an array that was filled.** -/
lemma exists_wrapped {M₀ : Memory Γ.functions} {c : Conf Γ slots} {pc slot array k : Nat}
    {element : Ty} (h : Collects M₀ c slot array (List.replicate k element))
    (hcode : s.Has pc (wrapCode slot)) (stack : List Value) :
    ∃ (c' : Conf Γ slots) (v : Value),
      s.Steps (c.point pc stack) 4 (c'.point (pc + 4) (v :: stack)) ∧ M₀.Within c'.memory ∧
      c'.locals = c.locals ∧ c'.memory.HasTy v (.list element) := by
  obtain ⟨items, hitems, hall⟩ := h.items
  have helements : ∀ v ∈ items, c.memory.HasTy v element := by
    intro v hv
    obtain ⟨place, hplace⟩ := List.mem_iff_getElem?.1 (Array.mem_toList_iff.2 hv)
    obtain ⟨ty, hty, hv⟩ := Memory.argsFit_of_forall₂ hall hplace
    rw [List.getElem?_replicate] at hty
    obtain rfl : element = ty := by
      split at hty
      · simpa using hty
      · simp at hty
    exact hv
  let adopted := c.memory.adopt hitems h.free element helements
  let M := adopted.push (.list (.ref array))
  have hM : adopted.Within M := adopted.within_push _
  have hkept : ∀ {v ty}, c.memory.HasTy v ty → M.HasTy v ty := fun hv =>
    hM.hasTy (c.memory.hasTy_record h.free element hv)
  have recorded : M.backs array = some element := Function.update_self ..
  exact ⟨c.withMemory M hkept c.printed c.opened, _, Site.step_wrap hcode h.held hitems,
    (h.within.adopt h.fresh hitems h.free helements).trans hM, rfl,
    .list (adopted.get?_push _) recorded⟩

/-! ## Expressions -/

/-- **A list literal**, once its elements are in the array. -/
lemma secures_list {pc depth slot : Nat} {t : Supply} {element : Ty} {k : Nat}
    {code : List Instruction} (hslot : slots.get? (.listLiteral t.literals) = some slot)
    (hcode : s.Has pc (arrayCode slot ++ code ++ wrapCode slot))
    (helements : ∀ (c : Conf Γ slots) (M₀ : Memory Γ.functions) (array : Nat) (stack : List Value),
      Collects M₀ c slot array [] → s.Secures n (c.point (pc + 4) stack)
        (Fills M₀ slot array depth (t.literals + 1) c (List.replicate k element)
          (pc + 4 + code.length) stack))
    (c : Conf Γ slots) (stack : List Value) :
    s.Secures n (c.point pc stack) (c.Delivers depth t.literals
      (pc + (arrayCode slot ++ code ++ wrapCode slot).length) stack (.list element)) := by
  have hcode : s.Has pc (arrayCode slot) ∧ s.Has (pc + 4 + code.length) (wrapCode slot) := by
    rw [Site.has_append, Site.has_append, List.length_append, ← Nat.add_assoc] at hcode
    exact ⟨hcode.1.1, hcode.2⟩
  obtain ⟨c₁, made, hcollects, hothers⟩ := exists_collects hslot (by simp) hcode.1 c stack
  refine .step made ((helements c₁ c.memory _ stack hcollects).bind ?_)
  rintro _ ⟨c₂, hfilled, hreserved, rfl⟩
  obtain ⟨c₃, v, wrapped, hwithin, hlocals, hv⟩ := exists_wrapped hfilled hcode.2 stack
  refine delivers_of_steps wrapped ⟨hwithin, fun {other} hother => ?_⟩ rfl hv
    (by simp [arrayCode, wrapCode]; omega)
  -- the literal's own slot is none of those in use around it
  have apart : other ≠ slot := by
    rintro rfl
    rcases hother with ⟨number, hlt, hslot'⟩ | ⟨callee, nesting, -, hslot'⟩
    · have := Slots.get?_inj hslot hslot'
      simp only [SlotKey.listLiteral.injEq] at this
      omega
    · simpa using Slots.get?_inj hslot hslot'
  rw [hlocals, hreserved (hother.mono (Nat.le_refl _) (Nat.le_succ _)), hothers other apart]

/-- The function pointer that a call goes through. -/
lemma secures_callee {t u : Supply} {name : String} {code : List Instruction}
    (h : CalleeCode env scope t name code u) (hΓ : env.symbols = Γ.symbols) {args : List Ty}
    {ret : Ty} (hname : Γ.nameTy? scope name = some (.fptr args ret))
    (hslots : u.slots.Within slots) {pc depth literals : Nat} (hcode : s.Has pc code)
    (c : Conf Γ slots) (stack : List Value) :
    s.Secures n (c.point pc stack)
      (c.Delivers depth literals (pc + code.length) stack (.fptr args ret)) := by
  rcases Context.nameTy?_eq_some hname with ⟨_, signature, hl, hfn, hty⟩ | ⟨v, hl, -, hvars⟩
  · obtain ⟨rfl, rfl⟩ : args = signature.1 ∧ ret = signature.2 := by simpa using hty
    cases h with
    | fn _ => exact secures_closure hfn hcode c stack
    | var _ hno =>
        rw [hΓ] at hno
        exact absurd hl (hno _)
  · cases h with
    | fn hfn => simp [hΓ, hl] at hfn
    | var _ _ =>
        have held := c.fits hvars (Supply.get?_slotOf hslots)
        simp only [Site.has_cons] at hcode
        have checked : c.memory.heap.checkCast ClassName.closure _ = .ok () :=
          Memory.checkCast_of_hasTy held rfl
        exact delivers_of_steps ((Site.step_load hcode.1).trans (Site.step_cast hcode.2.1 checked))
          (.refl c) rfl held rfl

lemma length_call (first code : List Instruction) (slot : Nat) :
    (first ++ arrayCode slot ++ code ++
      [Instruction.load slot, Instruction.callVirtual .closureInvoke]).length
        = first.length + 4 + code.length + 2 := by
  simp only [arrayCode, List.length_append, List.length_cons, List.length_nil]

/-- **A call**, if the code of its arguments fills the array. -/
lemma secures_call {t u v : Supply} {note : Note} {name : String} {args : List Expr} {ret : Ty}
    {first code : List Instruction} {pc depth : Nat} (hcallee : CalleeCode env scope t name first u)
    (hargs : ElementsCode env scope (depth + 1) (u.slotOf (.callArgs name depth))
      (u.withSlot (.callArgs name depth)) args code v)
    (hslots : v.slots.Within slots) (hΓ : env.symbols = Γ.symbols)
    (hsignature : Γ.signature? scope (.ident note name) = some (args.map Expr.ty, ret))
    (hcalls : ∀ k < n, CallsSafe s.classFile Γ.functions k)
    (hcode : s.Has pc (first ++ arrayCode (u.slotOf (.callArgs name depth)) ++ code ++
      [.load (u.slotOf (.callArgs name depth)), .callVirtual .closureInvoke]))
    (helements : ∀ {pc : Nat}, s.Has pc code →
      Reserved slots (depth + 1) u.literals (u.slotOf (.callArgs name depth)) →
      ∀ (c : Conf Γ slots) (M₀ : Memory Γ.functions) (array : Nat) (stack : List Value),
      Collects M₀ c (u.slotOf (.callArgs name depth)) array [] →
      s.Secures n (c.point pc stack) (Fills M₀ (u.slotOf (.callArgs name depth)) array (depth + 1)
        u.literals c (args.map Expr.ty) (pc + code.length) stack))
    (c : Conf Γ slots) (stack : List Value) :
    s.Secures n (c.point pc stack) fun q => ∃ (c' : Conf Γ slots) (v : Value),
      c.Evolves depth t.literals c' ∧ (ret ≠ .void → c'.memory.HasTy v ret) ∧
      q = c'.point (pc + first.length + 4 + code.length + 2) (v :: stack) := by
  have slotsWithin := hargs.within.slots.trans hslots
  have hslot := Supply.get?_slotOf slotsWithin
  obtain ⟨_, _, hident, hname⟩ := Context.signature?_eq_some hsignature
  obtain ⟨rfl, rfl⟩ := by simpa using hident
  simp only [Site.has_append, List.length_append, ← Nat.add_assoc, Site.has_cons] at hcode
  obtain ⟨⟨⟨hfirst, harray⟩, hinside⟩, hload, hinvoke, -⟩ := hcode
  have callee : s.Secures n (c.point pc stack)
      (c.Delivers depth t.literals (pc + first.length) stack (.fptr (args.map Expr.ty) ret)) :=
    secures_callee hcallee hΓ hname ((u.within_withSlot _).slots.trans slotsWithin) hfirst c stack
  refine callee.bind ?_
  rintro _ ⟨c₁, pointer, hevolves, hpointer, rfl⟩
  obtain ⟨c₂, made, hcollects, hothers⟩ :=
    exists_collects hslot (by simp) harray c₁ (pointer :: stack)
  have filled := helements hinside (.inr ⟨_, _, Nat.lt_succ_self _, hslot⟩) c₂ c₁.memory _
    (pointer :: stack) hcollects
  refine .step made (filled.bind ?_)
  rintro _ ⟨c₃, hfilled, hreserved, rfl⟩
  obtain ⟨items, hitems, hfits⟩ := hfilled.items
  have loaded : s.Steps (c₃.point (pc + first.length + 4 + code.length) (pointer :: stack)) 1
      (c₃.point (pc + first.length + 4 + code.length + 1)
        (.ref c₁.memory.heap.objects.size :: pointer :: stack)) :=
    hfilled.held ▸ Site.step_load hload
  refine .step loaded ?_
  refine (secures_invoke hcalls hinvoke c₃ (hfilled.within.hasTy hpointer) hitems
    (Memory.argsFit_of_forall₂ hfits) stack).bind ?_
  rintro _ ⟨M, hM, printed, opened, v, hv, rfl⟩
  refine .here ⟨c₃.withMemory M hM.hasTy printed opened, v, ⟨?_, fun {other} hother => ?_⟩, hv, rfl⟩
  · exact (hevolves.memory.trans hfilled.within).trans hM
  · -- the call's own slot is none of those in use around it
    have apart : other ≠ u.slotOf (.callArgs name depth) := by
      rintro rfl
      rcases hother with ⟨number, -, hslot'⟩ | ⟨callee, nesting, hlt, hslot'⟩
      · simpa using Slots.get?_inj hslot hslot'
      · have := Slots.get?_inj hslot hslot'
        simp only [SlotKey.callArgs.injEq] at this
        omega
    have reserved := hother.mono (Nat.le_succ depth) hcallee.within.literals
    show c₃.locals[other]?.getD .null = _
    rw [hreserved reserved, hothers other apart, hevolves.reserved hother]

mutual

/-- **The code of a well-typed expression delivers a value of its type.** -/
theorem secures_expr {t u : Supply} {e : Expr} {depth : Nat} {code : List Instruction}
    (h : ExprCode env scope depth t e code u) (hΓ : Agrees env Γ) (ht : Γ.typed scope e = true)
    (hslots : u.slots.Within slots) (hcalls : ∀ k < n, CallsSafe s.classFile Γ.functions k)
    {pc : Nat} (hcode : s.Has pc code) (c : Conf Γ slots) (stack : List Value) :
    s.Secures n (c.point pc stack)
      (c.Delivers depth t.literals (pc + code.length) stack e.ty) := by
  match h with
  | .leaf hleaf => exact secures_leaf hleaf hΓ.symbols ht hslots hcode c stack
  | .unary _ hoperand hlast =>
      rw [Site.has_append] at hcode
      have operand := secures_expr hoperand hΓ (Context.typed_operand hlast ht)
        (hlast.within.slots.trans hslots) hcalls hcode.1 c stack
      refine operand.bind ?_
      rintro _ ⟨c', v, hevolves, hv, rfl⟩
      rw [List.length_append, ← Nat.add_assoc]
      exact (secures_unary hlast ht hslots hcode.2 c' hv stack).weaken fun _ hq =>
        hq.after hevolves
  | .binary _ hlhs _ hrhs hlast =>
      obtain ⟨ht₁, ht₂⟩ := Context.typed_operands hlast ht
      have hslots' := hlast.within.slots.trans hslots
      simp only [Site.has_append, List.length_append, ← Nat.add_assoc] at hcode ⊢
      obtain ⟨⟨⟨hfirst, hmiddle⟩, hsecond⟩, hlastcode⟩ := hcode
      have lhs := secures_expr hlhs hΓ ht₁ (hrhs.within.slots.trans hslots') hcalls hfirst c stack
      have rhs := secures_expr hrhs hΓ ht₂ hslots' hcalls hsecond
      refine lhs.bind ?_
      rintro _ ⟨c₁, v₁, hevolves₁, hv₁, rfl⟩
      refine (secures_middle hlast hmiddle c₁ hv₁ stack).bind ?_
      rintro _ ⟨x, hx, rfl⟩
      refine (rhs c₁ (x :: stack)).bind ?_
      rintro _ ⟨c₂, v₂, hevolves₂, hv₂, rfl⟩
      have hevolves := hevolves₁.trans
        (hevolves₂.mono (Nat.le_refl _) hlhs.within.literals)
      exact (secures_binary hlast ht hlastcode c₂ (hx.evolves hevolves₂) hv₂ stack).weaken
        fun _ hq => hq.after hevolves
  | @ExprCode.list _ _ _ _ _ note elements code _ helements =>
      obtain ⟨element, hty, htys, htyped⟩ := Context.exists_of_listTyped ht
      have hslot := Supply.get?_literal (helements.within.slots.trans hslots)
      have inside : s.Has (pc + 4) code := by
        rw [Site.has_append, Site.has_append] at hcode
        exact hcode.1.2
      have filled := secures_elements helements hΓ htyped hslots hcalls inside
        (.inl ⟨_, Nat.lt_succ_self _, hslot⟩)
      rw [htys] at filled
      rw [Expr.ty, Expr.note, hty]
      exact secures_list hslot hcode
        (fun c M₀ array stack hcollects => filled c M₀ array [] stack hcollects) c stack
  | @ExprCode.call _ _ _ _ u _ note note' name args first code hcallee _ hargs =>
      simp only [Context.typed, Bool.and_eq_true, decide_eq_true_eq, Bool.not_eq_true'] at ht
      obtain ⟨⟨hsignature, hvalue⟩, htyped⟩ := ht
      rw [hΓ.callType_eq hsignature, resultCode, hvalue, if_neg Bool.false_ne_true] at hcode ⊢
      rw [Site.has_append, length_call, ← Nat.add_assoc, ← Nat.add_assoc, ← Nat.add_assoc] at hcode
      obtain ⟨hcall, hcast⟩ := hcode
      refine (secures_call hcallee hargs hslots hΓ.symbols hsignature hcalls hcall
        (fun hcode hreserved c M₀ array => secures_elements hargs hΓ htyped hslots hcalls hcode
          hreserved c M₀ array []) c stack).bind ?_
      rintro _ ⟨c', v, hevolves, hv, rfl⟩
      have hv : c'.memory.HasTy v note.ty := hv (by rintro h; simp [h, Ty.isVoid] at hvalue)
      obtain ⟨k, hk⟩ := step_downcast c' hv hcast
      refine delivers_of_steps hk hevolves rfl hv ?_
      rw [List.length_append, length_call]
      omega

/-- **The code of well-typed elements fills an array with values of their types.** -/
theorem secures_elements {t u : Supply} {es : List Expr} {depth slot : Nat}
    {code : List Instruction} (h : ElementsCode env scope depth slot t es code u)
    (hΓ : Agrees env Γ) (ht : Γ.allTyped scope es = true) (hslots : u.slots.Within slots)
    (hcalls : ∀ k < n, CallsSafe s.classFile Γ.functions k) {pc : Nat} (hcode : s.Has pc code)
    (hslot : Reserved slots depth t.literals slot) (c : Conf Γ slots) (M₀ : Memory Γ.functions)
    (array : Nat) (tys : List Ty) (stack : List Value) (hcollects : Collects M₀ c slot array tys) :
    s.Secures n (c.point pc stack) (Fills M₀ slot array depth t.literals c (tys ++ es.map Expr.ty)
      (pc + code.length) stack) := by
  match h with
  | .nil => exact .here ⟨c, by simpa using hcollects, fun _ => rfl, rfl⟩
  | @ElementsCode.cons _ _ _ _ _ _ _ e rest code codes _ he hrest =>
      rw [Context.allTyped, Bool.and_eq_true] at ht
      have regrouped : .load slot :: openCopy e.ty ++ code ++ closeCopy e.ty ++
          [.callVirtual .arrayAdd, .pop] ++ codes = [.load slot] ++
            (openCopy e.ty ++ code ++ closeCopy e.ty) ++ [.callVirtual .arrayAdd, .pop] ++
            codes := by
        simp
      have length : ([Instruction.load slot] ++ (openCopy e.ty ++ code ++ closeCopy e.ty) ++
          [Instruction.callVirtual .arrayAdd, Instruction.pop]).length
            = 1 + (openCopy e.ty ++ code ++ closeCopy e.ty).length + 2 := by
        simp only [List.length_append, List.length_cons, List.length_nil]
      rw [regrouped, Site.has_append, length, ← Nat.add_assoc, ← Nat.add_assoc] at hcode
      obtain ⟨hfirst, hcodes⟩ := hcode
      have hblock : s.Has (pc + 1) (openCopy e.ty ++ code ++ closeCopy e.ty) := by
        rw [Site.has_append, Site.has_append] at hfirst
        exact hfirst.1.2
      have hinside : s.Has (pc + 1 + (openCopy e.ty).length) code := by
        rw [Site.has_append, Site.has_append] at hblock
        exact hblock.1.2
      have value := secures_expr he hΓ ht.1 (hrest.within.slots.trans hslots) hcalls hinside
      have others := secures_elements hrest hΓ ht.2 hslots hcalls hcodes
        (hslot.mono (Nat.le_refl _) he.within.literals)
      refine (secures_add hfirst (secures_element hblock value) hcollects hslot stack).bind ?_
      rintro _ ⟨c₁, hcollects₁, hreserved₁, rfl⟩
      refine (others c₁ M₀ array _ stack hcollects₁).weaken ?_
      rintro _ ⟨c₂, hcollects₂, hreserved₂, rfl⟩
      refine ⟨c₂, by simpa using hcollects₂, fun hother => ?_, ?_⟩
      · rw [hreserved₂ (hother.mono (Nat.le_refl _) he.within.literals), hreserved₁ hother]
      · simp only [List.length_append, List.length_cons, List.length_nil]
        congr 1
        omega

end

end StackBackend.Typing
