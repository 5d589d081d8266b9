import StackBackend.Proofs.Lowering.MethodDepths
import StackBackend.Proofs.Lowering.Slots

/-!
# Which method a name leads to

The methods of a class are looked up by name, and the first one of a name is taken.  A class holds,
in order, the entry point `main`, the functions and the constructor, so a function of one of these
two names meets a method that the compiler makes.

* `method?_of_mem` — the name of any other function leads to the method of its first occurrence;
* `BodyCode.head` — the code of a body does not start by loading the receiver, as that of the
  constructor does, so the constructor is never mistaken for a function;
* `method?_lowered_iff` — which names lead to the method made for them;
* `mainProgram_hides_main` — a function called `main` cannot be reached.
-/

namespace StackBackend.Lowering

/-! ## The methods of a program -/

/-- **The method that a function is lowered to**, at a place of its name in the order of emission.
-/
def FunctionLowered (config : Config) (p : CheckedProgram) (name : String) (m : Method) : Prop :=
  ∃ before after earlier shared shared', p.reachable = before ++ name :: after ∧
    lowerFunctions config p {} before = .ok (earlier, shared) ∧
    lowerFunction config p shared name = .ok (m, shared')

/-- **The method that the entry unit is lowered to**, after all functions. -/
def EntryLowered (config : Config) (p : CheckedProgram) (m : Method) : Prop :=
  ∃ functions shared shared', lowerFunctions config p {} p.reachable = .ok (functions, shared) ∧
    lowerEntry config p shared = .ok (m, shared')

variable {config : Config} {p : CheckedProgram} {shared shared' : Shared} {name : String}
  {m : Method}

lemma FunctionCode.not_static (h : FunctionCode config p shared name m shared') :
    m.isStatic = false := by
  cases h
  rfl

/-! ## How code starts -/

lemma one_le_slotOf (t : Supply) (key : SlotKey) : 1 ≤ t.slotOf key := by
  obtain ⟨place, hslot, -⟩ := Slots.get?_eq_some (t.slots.get?_enter key)
  rw [Supply.slotOf, hslot]
  exact Nat.le_add_left 1 place

/-- Code that starts with an instruction other than one that loads the receiver. -/
def Starts (code : List Instruction) : Prop := ∃ i rest, code = i :: rest ∧ i ≠ .load 0

lemma Starts.append {code : List Instruction} (h : Starts code) (more : List Instruction) :
    Starts (code ++ more) := by
  obtain ⟨i, rest, rfl, hi⟩ := h
  exact ⟨i, rest ++ more, rfl, hi⟩

lemma starts_cons {i : Instruction} (hi : i ≠ .load 0) (rest : List Instruction) :
    Starts (i :: rest) := ⟨i, rest, rfl, hi⟩

lemma starts_load (t : Supply) (key : SlotKey) (rest : List Instruction) :
    Starts (.load (t.slotOf key) :: rest) := by
  refine starts_cons ?_ rest
  have := one_le_slotOf t key
  simp only [ne_eq, Instruction.load.injEq]
  omega

variable {env : Env} {scope : ScopeId} {depth : Nat} {t u : Supply} {code : List Instruction}

lemma LeafCode.starts {e : Expr} (h : LeafCode env scope t e code u) : Starts code := by
  cases h with
  | int | bool | str => exact starts_cons (by simp) _
  | fn _ | pointer => exact starts_cons (by simp) _
  | var _ _ => exact starts_load _ _ _

lemma CalleeCode.starts (h : CalleeCode env scope t name code u) : Starts code := by
  cases h with
  | fn _ => exact starts_cons (by simp) _
  | var _ => exact starts_load _ _ _

/-- The code of an expression starts with that of its first part, or with a new object. -/
theorem ExprCode.starts {t u : Supply} {depth : Nat} {e : Expr} {code : List Instruction}
    (h : ExprCode env scope depth t e code u) : Starts code := by
  match h with
  | .leaf hleaf => exact hleaf.starts
  | .unary _ hoperand _ => exact hoperand.starts.append _
  | .binary _ hlhs _ _ _ => exact ((hlhs.starts.append _).append _).append _
  | .list _ _ => exact ((starts_cons (by simp) _).append _).append _
  | .call hfirst _ _ => exact (((hfirst.starts.append _).append _).append _).append _

lemma PlainCode.starts {loop : Option LoopLabels} {stmt : Stmt}
    (h : PlainCode env depth loop scope t stmt code u) : Starts code := by
  cases h with
  | assign _ _ hvalue => exact hvalue.2.starts.append _
  | assignElement _ _ _ _ _ => exact (((starts_load _ _ _).append _).append _).append _ |>.append _
  | exitLoop _ | nextLoop _ | ret => exact starts_cons (by simp) _
  | retValue hvalue => exact hvalue.2.starts.append _
  | put _ _ => exact (((starts_cons (by simp) _).append _).append _).append _
  | eval hexpr => exact hexpr.starts.append _

lemma StmtCode.starts {loop : Option LoopLabels} {stmt : Stmt}
    (h : StmtCode env depth loop scope t stmt code u) : Starts code := by
  cases h with
  | plain hplain => exact hplain.starts
  | branch _ hcond _ _ =>
      exact (((hcond.2.starts.append _).append _).append _).append _ |>.append _ |>.append _
  | loop _ => exact (starts_cons (by simp) _).append _

/-- **The code of a body does not start by loading the receiver.** -/
lemma BodyCode.head {symbols : SymbolTable} {slots : Slots} {body : List Stmt} {ret : Ty}
    {code : Code} {issued : Nat} (h : BodyCode symbols shared slots body scope ret code issued) :
    code[0]? ≠ some (.load 0) := by
  cases h with
  | @mk code _ hblock =>
      have closed : ∀ i rest, code = i :: rest → (closeBody ret code.toArray)[0]? = some i := by
        rintro i rest rfl
        rw [closeBody]
        split
        · simp
        · simp
      cases hblock with
      | nil =>
          rw [closeBody]
          split <;> simp
      | cons hstmt _ =>
          obtain ⟨i, rest, hcode, hi⟩ := hstmt.starts.append _
          rw [closed i rest hcode]
          simpa using hi

/-! ## Names and methods -/

variable {c : ClassFile} {issued : Nat}

/-- **The name of a function leads to its method**, unless it is that of the entry point. -/
lemma method?_of_mem (h : assemble p config = .ok (c, issued)) (hname : name ∈ p.reachable)
    (hmain : name ≠ "main") : ∃ m, c.method? name = some m ∧ FunctionLowered config p name m := by
  obtain ⟨before, after, earlier, middle, last, m, hsplit, hbefore, hcode, hfound⟩ :=
    method?_function h hname hmain
  exact ⟨m, hfound, before, after, earlier, middle, last, hsplit, lowerFunctions_ok_iff.2 hbefore,
    lowerFunction_ok_iff.2 hcode⟩

lemma entryLowered_iff (h : assemble p config = .ok (c, issued)) :
    ∃ code, EntryLowered config p (entryMethod config code) ∧
      (constructorName ∉ p.reachable → c.method? constructorName = some (entryMethod config code)) ∧
      ∀ m, EntryLowered config p m → m = entryMethod config code := by
  obtain ⟨functions, shared, code, hfunctions, hbody, hfound⟩ := method?_constructor h
  have hlowered := lowerFunctions_ok_iff.2 hfunctions
  have hentry : lowerEntry config p shared = .ok (entryMethod config code, _) :=
    lowerEntry_ok_iff.2 ⟨code, issued, hbody, rfl, rfl⟩
  refine ⟨code, ⟨functions, shared, _, hlowered, hentry⟩, hfound, ?_⟩
  rintro m ⟨functions', shared', last, hfunctions', hentry'⟩
  rw [hlowered, Except.ok.injEq, Prod.mk.injEq] at hfunctions'
  obtain ⟨rfl, rfl⟩ := hfunctions'
  rw [hentry, Except.ok.injEq, Prod.mk.injEq] at hentry'
  exact hentry'.1.symm

/-- A function is never lowered to what the entry unit is lowered to. -/
lemma FunctionLowered.ne_entryMethod (h : FunctionLowered config p name m) (code : Code) :
    m ≠ entryMethod config code := by
  rintro rfl
  obtain ⟨before, after, earlier, shared, shared', -, -, hlowered⟩ := h
  generalize hm : entryMethod config code = m at hlowered
  have hstart : m.code[0]? = some (.load 0) := by
    rw [← hm, entryMethod, method, Array.getElem?_append_left (by simp)]
    rfl
  cases lowerFunction_ok_iff.1 hlowered with
  | mk _ _ _ _ hbody => exact hbody.head hstart

/-- Nor to the entry point, which is static. -/
lemma FunctionLowered.ne_entryPoint (h : FunctionLowered config p name m) :
    m ≠ entryPoint config := by
  rintro rfl
  obtain ⟨before, after, earlier, shared, shared', -, -, hlowered⟩ := h
  have hstatic := (lowerFunction_ok_iff.1 hlowered).not_static
  simp [entryPoint, method] at hstatic

/-- **Which names lead to the method made for them.**  That of a function does unless it is `main`,
and that of the constructor does unless a function has it. -/
theorem method?_lowered_iff (h : assemble p config = .ok (c, issued)) :
    (∀ name ∈ p.reachable,
        (∃ m, c.method? name = some m ∧ FunctionLowered config p name m) ↔ name ≠ "main") ∧
      ((∃ m, c.method? constructorName = some m ∧ EntryLowered config p m) ↔
        constructorName ∉ p.reachable) := by
  constructor
  · intro name hname
    constructor
    · rintro ⟨m, hfound, hlowered⟩ rfl
      rw [method?_main h, Option.some.injEq] at hfound
      exact hlowered.ne_entryPoint hfound.symm
    · exact method?_of_mem h hname
  · obtain ⟨code, hentry, hfree, hunique⟩ := entryLowered_iff h
    constructor
    · rintro ⟨m, hfound, hm⟩ htaken
      obtain ⟨m', hfound', hlowered⟩ := method?_of_mem h htaken (by decide)
      obtain rfl : m = m' := by simpa [hfound] using hfound'
      exact hlowered.ne_entryMethod code (hunique m hm)
    · intro hname
      exact ⟨_, hfree hname, hentry⟩

theorem method?_lowered_loopingProgram :
    ∃ c issued, assemble loopingProgram {} = .ok (c, issued) ∧ "f" ∈ loopingProgram.reachable ∧
      (∃ m, c.method? "f" = some m ∧ FunctionLowered {} loopingProgram "f" m) ∧
      ∃ m, c.method? constructorName = some m ∧ EntryLowered {} loopingProgram m := by
  have assembled : (assemble loopingProgram {}).toBool = true := by decide +kernel
  cases h : assemble loopingProgram {} with
  | error e => simp [h, Except.toBool] at assembled
  | ok r =>
      obtain ⟨functions, constructor⟩ := method?_lowered_iff h
      have hname : "f" ∈ loopingProgram.reachable := by decide
      exact ⟨r.1, r.2, rfl, hname, (functions "f" hname).2 (by decide), constructor.2 (by decide)⟩

/-- A program whose only function is called `main` and returns a number. -/
def mainProgram : CheckedProgram :=
  ({} : ProgramDraft).function "main" [] .int
      [.ret default (some (.int { ty := .int, span := default } 7))]
    |>.finish []

/-- **A function called `main` cannot be reached**: its name leads to the entry point. -/
theorem mainProgram_hides_main :
    ∃ c issued, assemble mainProgram {} = .ok (c, issued) ∧ "main" ∈ mainProgram.reachable ∧
      ¬ ∃ m, c.method? "main" = some m ∧ FunctionLowered {} mainProgram "main" m := by
  have assembled : (assemble mainProgram {}).toBool = true := by decide +kernel
  cases h : assemble mainProgram {} with
  | error e => simp [h, Except.toBool] at assembled
  | ok r =>
      refine ⟨r.1, r.2, rfl, by decide, ?_⟩
      rintro ⟨m, hfound, hlowered⟩
      exact hlowered.ne_entryPoint (by simpa [method?_main h] using hfound.symm)

end StackBackend.Lowering
