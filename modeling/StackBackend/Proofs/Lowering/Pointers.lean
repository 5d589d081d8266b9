import StackBackend.Proofs.Lowering.MethodNames
import StackBackend.Proofs.Lowering.Occurrences
import StackBackend.Proofs.Storage.Instructions

/-!
# How emitted code makes function pointers

A function pointer holds a receiver and the name of a method.  Emitted code makes it in one way
only: it loads the receiver of the method it is in, then the name, and calls the constructor.

* `Expr.pointers`, `Stmt.pointers` — the functions that pointers are taken to by name;
* `CheckedProgram.Spares` — a program has no function of a name, nor a pointer to one;
* `Tidy name code` — code that calls methods of the library only, leaves the slot of the receiver
  alone, and makes function pointers as said, none of them to `name`;
* `tidy_of_assemble` — all methods of a class are tidy, but for the entry point.
-/

namespace StackBackend

/-! ## Pointers in trees -/

namespace Expr

mutual

/-- The functions that an expression takes pointers to. -/
def pointers : Expr → List String
  | fnPtr _ name => [name]
  | list _ elements => pointersIn elements
  | call _ callee args => callee.pointers ++ pointersIn args
  | index _ base indices => base.pointers ++ pointersIn indices
  | binary _ _ lhs rhs => lhs.pointers ++ rhs.pointers
  | unary _ _ operand | len _ operand | chop _ operand => operand.pointers
  | int _ _ | bool _ _ | str _ _ | ident _ _ => []

/-- The functions that expressions take pointers to. -/
def pointersIn : List Expr → List String
  | [] => []
  | e :: rest => e.pointers ++ pointersIn rest

end

end Expr

namespace Stmt

mutual

/-- The functions that a statement takes pointers to. -/
def pointers : Stmt → List String
  | assign _ target index _ value =>
      target.pointers ++ Expr.pointersIn index.toList ++ value.pointers
  | branch _ cond thenBody elseBody _ => cond.pointers ++ pointersIn thenBody ++ pointersIn elseBody
  | loop _ body _ => pointersIn body
  | ret _ value => Expr.pointersIn value.toList
  | put _ value | eval _ value => value.pointers
  | exitLoop _ | nextLoop _ => []

/-- The functions that a block takes pointers to. -/
def pointersIn : List Stmt → List String
  | [] => []
  | stmt :: rest => stmt.pointers ++ pointersIn rest

end

end Stmt

/-- **A name is not used** as that of a function or of a function pointer. -/
structure CheckedProgram.Spares (p : CheckedProgram) (name : String) : Prop where
  functions : ∀ scope binding, p.symbols.lookup scope name ≠ some (.fn binding)
  pointers : ∀ body ∈ p.bodies, name ∉ Stmt.pointersIn body

lemma SymbolTable.walk_of_unbound {t : SymbolTable} {name : String}
    (hunbound : ∀ scope ∈ t.scopes, scope.bindings.find? name = none) (steps : Nat) (id : ScopeId) :
    t.walk name steps id = none := by
  induction steps generalizing id with
  | zero => rfl
  | succ steps ih =>
      have here : t.lookupLocal id name = none := by
        rw [lookupLocal]
        split
        · next scope hscope => exact hunbound scope (List.mem_of_getElem? hscope)
        · rfl
      rw [walk, here]
      cases t.parent? id with
      | none => rfl
      | some parent => exact ih parent

/-- A name that no scope binds is not that of a function. -/
lemma CheckedProgram.spares_of_unbound {p : CheckedProgram} {name : String}
    (hunbound : ∀ scope ∈ p.symbols.scopes, scope.bindings.find? name = none)
    (hpointers : ∀ body ∈ p.bodies, name ∉ Stmt.pointersIn body) : p.Spares name where
  functions scope binding := by
    rw [SymbolTable.lookup, SymbolTable.walk_of_unbound hunbound]
    simp
  pointers := hpointers

/-! ## Tidy code -/

/-- Whether an instruction neither writes the slot of the receiver nor makes a function pointer, and
calls methods of the library only. -/
def Instruction.isPlain : Instruction → Bool
  | store slot => slot ≠ 0
  | invoke _ method => method.isOfLibrary (· ≠ .closureInit)
  | _ => true

@[simp] lemma Instruction.isPlain_invoke (kind : InvokeKind) (m : LibraryMethod) :
    (invoke kind m.ref).isPlain = decide (m ≠ .closureInit) :=
  MethodRef.isOfLibrary_ref m _

namespace Lowering

/-- **Code that takes care of the receiver**: it never writes its slot, calls only methods of the
library, and makes function pointers of the receiver and a name, which is not `name`. -/
structure Tidy (name : String) (code : List Instruction) : Prop where
  stores : .store 0 ∉ code
  library : ∀ i ∈ code, i.IsLibrary
  pointers : ∀ before kind after,
    code = before ++ .invoke kind LibraryMethod.closureInit.ref :: after →
    ∃ front other, before = front ++ [.load 0, .ldc (.str other)] ∧ other ≠ name

variable {name : String} {code more : List Instruction}

lemma tidy_of_isPlain (h : ∀ i ∈ code, i.isPlain = true) : Tidy name code where
  stores hmem := by simpa [Instruction.isPlain] using h _ hmem
  library i hmem := by
    rintro kind method rfl
    obtain ⟨m, hm, -⟩ := MethodRef.exists_of_isOfLibrary (h _ hmem)
    exact ⟨m, hm⟩
  pointers before kind after hcode := by
    have plain := h (.invoke kind LibraryMethod.closureInit.ref) (by simp [hcode])
    simp at plain

lemma Tidy.append (h : Tidy name code) (h' : Tidy name more) : Tidy name (code ++ more) where
  stores hmem := by
    rcases List.mem_append.1 hmem with hmem | hmem
    · exact h.stores hmem
    · exact h'.stores hmem
  library i hmem := by
    rcases List.mem_append.1 hmem with hmem | hmem
    · exact h.library i hmem
    · exact h'.library i hmem
  pointers before kind after hcode := by
    -- the constructor is called in the first part or in the second
    rcases List.append_eq_append_iff.1 hcode with ⟨between, rfl, hmore⟩ | ⟨between, hcode, hafter⟩
    · obtain ⟨front, other, rfl, hother⟩ := h'.pointers between kind after hmore
      exact ⟨code ++ front, other, by simp, hother⟩
    · cases between with
      | nil =>
          obtain ⟨front, other, hfront, hother⟩ := h'.pointers [] kind after
            (by simpa using hafter.symm)
          simp at hfront
      | cons i between =>
          obtain ⟨rfl, -⟩ := List.cons.inj hafter
          exact h.pointers before kind between hcode

lemma Tidy.cons {i : Instruction} (hi : i.isPlain = true) (h : Tidy name code) :
    Tidy name (i :: code) := by
  have first : Tidy name [i] := tidy_of_isPlain (by simpa using hi)
  exact first.append h

/-- **Function pointers are made of the receiver.** -/
lemma tidy_closureCode {other : String} (hother : other ≠ name) :
    Tidy name (closureCode other) := by
  refine .cons rfl (.cons rfl ⟨?_, ?_, ?_⟩)
  · simp [Instruction.construct]
  · simp [Instruction.IsLibrary, Instruction.construct]
  · intro before kind after hcode
    rcases before with _ | ⟨_, _ | ⟨_, _ | ⟨_, _⟩⟩⟩
    · simp at hcode
    · simp at hcode
    · obtain ⟨rfl, rfl, -⟩ : _ ∧ _ ∧ _ := by simpa using hcode
      exact ⟨[], other, rfl, hother⟩
    · simp at hcode

/-! ## Expressions -/

section Expressions

variable {env : Env} {scope : ScopeId} {depth : Nat} {t u : Supply} {e : Expr}

lemma tidy_downcast (ty : Ty) : Tidy name (downcast ty) := by
  refine tidy_of_isPlain fun i hi => ?_
  cases ty with
  | void => simp [downcast, Ty.boxedClass?] at hi
  | _ =>
      obtain rfl := by simpa [downcast, Ty.boxedClass?] using hi
      rfl

lemma tidy_unboxing (ty : Ty) : Tidy name (unboxing ty) := by
  refine tidy_of_isPlain ?_
  cases ty <;> simp [unboxing, Instruction.callVirtual]

lemma tidy_elementCode (element : Ty) : Tidy name (elementCode element) := by
  rw [elementCode]
  split
  · exact tidy_of_isPlain (by simp)
  · exact tidy_downcast element

lemma tidy_truthCode {branch : Label → Instruction} (hbranch : ∀ l, (branch l).isPlain = true)
    (n : Nat) : Tidy name (truthCode branch n) :=
  .cons (hbranch _) (tidy_of_isPlain (by simp [Instruction.isPlain, Instruction.callStatic]))

/-- The slot of the receiver is none that is handed out. -/
@[simp] lemma slotOf_ne_zero (t : Supply) (key : SlotKey) : t.slotOf key ≠ 0 :=
  Nat.ne_of_gt (one_le_slotOf t key)

lemma LeafCode.tidy
    (hfunctions : ∀ scope binding, env.symbols.lookup scope name ≠ some (.fn binding))
    (hpointers : name ∉ e.pointers) (h : LeafCode env scope t e code u) : Tidy name code := by
  cases h with
  | int | bool => exact tidy_of_isPlain (by simp [Instruction.isPlain, Instruction.callStatic])
  | str => exact tidy_of_isPlain (by simp [Instruction.isPlain])
  | fn hlookup =>
      refine tidy_closureCode ?_
      rintro rfl
      exact hfunctions scope _ hlookup
  | var _ => exact .cons rfl (tidy_downcast _)
  | pointer =>
      refine tidy_closureCode ?_
      rintro rfl
      simp [Expr.pointers] at hpointers

lemma CalleeCode.tidy {callee : String}
    (hfunctions : ∀ scope binding, env.symbols.lookup scope name ≠ some (.fn binding))
    (h : CalleeCode env scope t callee code u) : Tidy name code := by
  cases h with
  | fn hlookup =>
      refine tidy_closureCode ?_
      rintro rfl
      exact hfunctions scope _ hlookup
  | var _ => exact tidy_of_isPlain (by simp [Instruction.isPlain])

lemma UnaryCode.tidy {operand : Expr} (h : UnaryCode t e operand code u) : Tidy name code := by
  refine tidy_of_isPlain ?_
  cases h with
  | neg _ | not _ | lenText _ | lenList _ | chop _ | count _ _ _ _ =>
      simp [chopCode, Instruction.isPlain, Instruction.callStatic, Instruction.callVirtual]

lemma BinaryCode.tidy {lhs rhs : Expr} {middle last : List Instruction}
    (h : BinaryCode t e lhs rhs middle last u) : Tidy name middle ∧ Tidy name last := by
  have nothing : Tidy name [] := tidy_of_isPlain (by simp)
  cases h with
  | arith _ _ _ =>
      constructor
      all_goals
        refine tidy_of_isPlain ?_
        simp [Instruction.isPlain, Instruction.callStatic, Instruction.callVirtual]
  | scalar _ _ =>
      exact ⟨tidy_unboxing _, (tidy_unboxing _).append (tidy_truthCode (fun _ => rfl) _)⟩
  | text _ _ =>
      refine ⟨nothing, .cons (by simp [Instruction.callVirtual]) (tidy_truthCode (fun l => ?_) _)⟩
      split <;> rfl
  | identity _ _ => exact ⟨nothing, tidy_truthCode (fun _ => rfl) _⟩
  | index _ _ =>
      refine ⟨nothing, .cons ?_ (.cons ?_ (tidy_elementCode _))⟩ <;> simp [Instruction.callVirtual]

lemma tidy_arrayCode (t : Supply) (key : SlotKey) : Tidy name (arrayCode (t.slotOf key)) :=
  tidy_of_isPlain (by simp [arrayCode, Instruction.isPlain, Instruction.construct])

lemma tidy_wrapCode (slot : Nat) : Tidy name (wrapCode slot) :=
  tidy_of_isPlain (by simp [wrapCode, Instruction.isPlain, Instruction.construct])

lemma tidy_openCopy (ty : Ty) : Tidy name (openCopy ty) := by
  rw [openCopy]
  split <;> exact tidy_of_isPlain (by simp [Instruction.isPlain])

lemma tidy_closeCopy (ty : Ty) : Tidy name (closeCopy ty) := by
  rw [closeCopy]
  split <;> exact tidy_of_isPlain (by simp [Instruction.construct])

lemma tidy_callCode (slot : Nat) : Tidy name [.load slot, .callVirtual .closureInvoke] :=
  tidy_of_isPlain (by simp [Instruction.isPlain, Instruction.callVirtual])

lemma tidy_resultCode (ret : Ty) : Tidy name (resultCode ret) := by
  rw [resultCode]
  split
  · exact tidy_of_isPlain (by simp [Instruction.isPlain])
  · exact tidy_downcast ret

lemma UnaryCode.pointers {operand : Expr} (h : UnaryCode t e operand code u) :
    e.pointers = operand.pointers := by
  cases h with
  | neg _ | not _ | count _ _ _ _ | lenText _ | lenList _ | chop _ => simp [Expr.pointers]

lemma BinaryCode.pointers {lhs rhs : Expr} {middle last : List Instruction}
    (h : BinaryCode t e lhs rhs middle last u) : e.pointers = lhs.pointers ++ rhs.pointers := by
  cases h with
  | arith _ _ _ | scalar _ _ | text _ _ | identity _ _ | index _ _ =>
      simp [Expr.pointers, Expr.pointersIn]

mutual

/-- **The code of an expression is tidy.** -/
theorem ExprCode.tidy {depth : Nat} {t u : Supply} {e : Expr} {code : List Instruction}
    (hfunctions : ∀ scope binding, env.symbols.lookup scope name ≠ some (.fn binding))
    (hpointers : name ∉ e.pointers) (h : ExprCode env scope depth t e code u) : Tidy name code := by
  match h with
  | .leaf hleaf => exact hleaf.tidy hfunctions hpointers
  | .unary _ hoperand hcode =>
      rw [hcode.pointers] at hpointers
      exact (hoperand.tidy hfunctions hpointers).append hcode.tidy
  | .binary _ hlhs _ hrhs hcode =>
      rw [hcode.pointers, List.mem_append, not_or] at hpointers
      obtain ⟨hmiddle, hlast⟩ := hcode.tidy
      exact (((hlhs.tidy hfunctions hpointers.1).append hmiddle).append
        (hrhs.tidy hfunctions hpointers.2)).append hlast
  | .list _ helements =>
      rw [Expr.pointers] at hpointers
      exact ((tidy_arrayCode _ _).append (helements.tidy hfunctions hpointers)).append
        (tidy_wrapCode _)
  | .call hfirst _ hargs =>
      rw [Expr.pointers, List.mem_append, not_or] at hpointers
      exact ((((hfirst.tidy hfunctions).append (tidy_arrayCode _ _)).append
        (hargs.tidy hfunctions hpointers.2)).append (tidy_callCode _)).append (tidy_resultCode _)

theorem ElementsCode.tidy {depth slot : Nat} {t u : Supply} {es : List Expr}
    {code : List Instruction}
    (hfunctions : ∀ scope binding, env.symbols.lookup scope name ≠ some (.fn binding))
    (hpointers : name ∉ Expr.pointersIn es) (h : ElementsCode env scope depth slot t es code u) :
    Tidy name code := by
  match h with
  | .nil => exact tidy_of_isPlain (by simp)
  | .cons _ he hrest =>
      rw [Expr.pointersIn, List.mem_append, not_or] at hpointers
      have added : Tidy name [.callVirtual .arrayAdd, .pop] :=
        tidy_of_isPlain (by simp [Instruction.isPlain, Instruction.callVirtual])
      exact .append (.append (.append (.append (.cons rfl (tidy_openCopy _))
        (he.tidy hfunctions hpointers.1)) (tidy_closeCopy _)) added)
        (hrest.tidy hfunctions hpointers.2)

end

end Expressions

/-! ## Statements -/

section Statements

variable {env : Env} {depth : Nat} {loop : Option LoopLabels} {scope : ScopeId} {t u : Supply}

lemma pointers_assignedValue {op : AssignOp} {current value : Expr}
    (hcurrent : name ∉ current.pointers) (hvalue : name ∉ value.pointers) :
    name ∉ (assignedValue op current value).pointers := by
  rw [assignedValue]
  split
  · exact hvalue
  · simp [Expr.pointers, hcurrent, hvalue]

lemma PlainCode.tidy {stmt : Stmt}
    (hfunctions : ∀ scope binding, env.symbols.lookup scope name ≠ some (.fn binding))
    (hpointers : name ∉ stmt.pointers) (h : PlainCode env depth loop scope t stmt code u) :
    Tidy name code := by
  cases h with
  | assign _ _ hvalue =>
      simp only [Stmt.pointers, List.mem_append, not_or] at hpointers
      obtain ⟨⟨htarget, -⟩, hassigned⟩ := hpointers
      refine (hvalue.2.tidy hfunctions (pointers_assignedValue htarget hassigned)).append ?_
      exact tidy_of_isPlain (by simp [Instruction.isPlain])
  | assignElement _ _ _ _ hindex hvalue =>
      simp only [Stmt.pointers, Option.toList_some, Expr.pointersIn, List.append_nil,
        List.mem_append, not_or] at hpointers
      obtain ⟨⟨htarget, hplace⟩, hassigned⟩ := hpointers
      have stored := hvalue.2.tidy hfunctions (pointers_assignedValue
        (by simp [Expr.pointers, Expr.pointersIn, htarget, hplace]) hassigned)
      refine .append (.append (.append (.append (tidy_of_isPlain ?_)
        (hindex.2.tidy hfunctions hplace)) (tidy_of_isPlain ?_)) stored) (tidy_of_isPlain ?_)
      all_goals simp [Instruction.isPlain, Instruction.callVirtual]
  | exitLoop _ | nextLoop _ | ret => exact tidy_of_isPlain (by simp [Instruction.isPlain])
  | retValue hvalue =>
      simp only [Stmt.pointers, Option.toList_some, Expr.pointersIn, List.append_nil] at hpointers
      exact (hvalue.2.tidy hfunctions hpointers).append
        (tidy_of_isPlain (by simp [Instruction.isPlain]))
  | put hvalue _ =>
      rw [Stmt.pointers] at hpointers
      refine .append (.append (.append (.cons rfl (hvalue.2.tidy hfunctions hpointers))
        (tidy_downcast _)) (tidy_unboxing _)) (tidy_of_isPlain ?_)
      simp [Instruction.callVirtual]
  | eval hexpr =>
      rw [Stmt.pointers] at hpointers
      refine (hexpr.tidy hfunctions hpointers).append (tidy_of_isPlain ?_)
      split <;> simp [Instruction.isPlain]

mutual

/-- **The code of a statement is tidy.** -/
theorem StmtCode.tidy {loop : Option LoopLabels} {scope : ScopeId} {t u : Supply} {stmt : Stmt}
    {code : List Instruction}
    (hfunctions : ∀ scope binding, env.symbols.lookup scope name ≠ some (.fn binding))
    (hpointers : name ∉ stmt.pointers) (h : StmtCode env depth loop scope t stmt code u) :
    Tidy name code := by
  match h with
  | .plain hplain => exact hplain.tidy hfunctions hpointers
  | .branch _ hcond hthen helse =>
      simp only [Stmt.pointers, List.mem_append, not_or] at hpointers
      obtain ⟨⟨hfirst, hsecond⟩, hthird⟩ := hpointers
      rw [append_branchCode]
      refine (hcond.2.tidy hfunctions hfirst).append (.append (.append (.append (.append
        (.append (tidy_of_isPlain ?_) (hthen.tidy hfunctions hsecond)) (tidy_of_isPlain ?_))
        (tidy_of_isPlain ?_)) (helse.tidy hfunctions hthird)) (tidy_of_isPlain ?_))
      · simp [Instruction.isPlain, Instruction.callVirtual]
      · rw [skipCode]
        split <;> simp [Instruction.isPlain]
      · simp [Instruction.isPlain]
      · simp [Instruction.isPlain]
  | .loop hbody =>
      rw [Stmt.pointers] at hpointers
      refine .append (.cons rfl (hbody.tidy hfunctions hpointers)) (tidy_of_isPlain ?_)
      simp [Instruction.isPlain]

theorem BlockCode.tidy {loop : Option LoopLabels} {scope : ScopeId} {t u : Supply}
    {block : List Stmt} {code : List Instruction}
    (hfunctions : ∀ scope binding, env.symbols.lookup scope name ≠ some (.fn binding))
    (hpointers : name ∉ Stmt.pointersIn block)
    (h : BlockCode env depth loop scope t block code u) : Tidy name code := by
  match h with
  | .nil => exact tidy_of_isPlain (by simp)
  | .cons hstmt hrest =>
      rw [Stmt.pointersIn, List.mem_append, not_or] at hpointers
      exact (hstmt.tidy hfunctions hpointers.1).append (hrest.tidy hfunctions hpointers.2)

end

end Statements

/-! ## Classes -/

variable {p : CheckedProgram} {config : Config} {c : ClassFile} {issued : Nat}

lemma BodyCode.tidy {symbols : SymbolTable} {shared : Shared} {slots : Slots} {body : List Stmt}
    {scope : ScopeId} {ret : Ty} {code : Code}
    (hfunctions : ∀ scope binding, symbols.lookup scope name ≠ some (.fn binding))
    (hpointers : name ∉ Stmt.pointersIn body)
    (h : BodyCode symbols shared slots body scope ret code issued) : Tidy name code.toList := by
  cases h with
  | mk hblock =>
      have tidy := hblock.tidy hfunctions hpointers
      rw [closeBody]
      split
      · simpa using tidy.append (tidy_of_isPlain (by simp [Instruction.isPlain] :
          ∀ i ∈ [Instruction.ret], i.isPlain = true))
      · simpa using tidy

/-- **The methods of functions** are not static and tidy, and have other names than one spared. -/
lemma FunctionsCode.tidy {shared shared' : Shared} {names : List String} {methods : List Method}
    (hspares : p.Spares name) (hnames : ∀ other ∈ names, other ∈ p.reachable)
    (h : FunctionsCode config p shared names methods shared') :
    ∀ method ∈ methods, method.isStatic = false ∧ method.name ≠ name ∧
      Tidy name method.code.toList := by
  induction h with
  | nil => simp
  | @cons _ _ _ other names m methods hfirst _ ih =>
      have rest := ih fun other hother => hnames other (List.mem_cons_of_mem _ hother)
      intro method hmethod
      rcases List.mem_cons.1 hmethod with rfl | hmethod
      · cases hfirst with
        | @mk binding decl _ _ _ hbinding hdecl _ _ hbody =>
            refine ⟨rfl, ?_, hbody.tidy hspares.functions (hspares.pointers _ ?_)⟩
            · rintro rfl
              obtain ⟨found, hfound, hfn⟩ := Option.bind_eq_some_iff.1 hbinding
              cases found with
              | fn found => exact hspares.functions .global found hfound
              | var _ => simp [Binding.fn?] at hfn
            · refine List.mem_cons_of_mem _ (List.mem_filterMap.2 ⟨other, ?_, ?_⟩)
              · exact hnames other List.mem_cons_self
              · simp [hdecl]
      · exact rest method hmethod

/-- **The methods of a class**, but for the entry point, are not static, tidy, and have other names
than one spared. -/
theorem tidy_of_assemble (h : assemble p config = .ok (c, issued)) (hspares : p.Spares name)
    (hname : name ≠ constructorName) : ∀ method ∈ c.methods, method = entryPoint config ∨
      method.isStatic = false ∧ method.name ≠ name ∧ Tidy name method.code.toList := by
  obtain ⟨-, functions, shared, code, hfunctions, hbody, rfl⟩ := assemble_ok_iff.1 h
  intro method hmethod
  simp only [List.mem_cons, List.mem_append, List.not_mem_nil, or_false] at hmethod
  rcases hmethod with rfl | hmethod | rfl
  · exact .inl rfl
  · exact .inr (hfunctions.tidy hspares (fun _ hother => hother) method hmethod)
  · have prologue : Tidy name [.load 0, .construct .objectInit] :=
      tidy_of_isPlain (by simp [Instruction.isPlain, Instruction.construct])
    have body := hbody.tidy hspares.functions (hspares.pointers _ List.mem_cons_self)
    refine .inr ⟨rfl, Ne.symm hname, ?_⟩
    simpa [entryMethod, Lowering.method] using prologue.append body

end Lowering

end StackBackend
