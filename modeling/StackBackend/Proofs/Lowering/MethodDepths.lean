import StackBackend.Proofs.Lowering.Depths
import StackBackend.Proofs.Lowering.Shape.ClassUnit
import Mathlib.Data.List.Forall2

/-!
# Every method of an assembled class passes the depth analysis

Bodies are balanced, so nothing goes wrong with their depths, and the analysis accepts them as long
as it can count these.  A return without a value is met on an empty stack and a return with one on
exactly that value.  Control falls off the end, if at all, with an empty stack, and only in
functions that return a value: all other bodies are closed by a return.
-/

namespace StackBackend.Lowering

open StackProfile Instruction

/-! ## Bodies -/

/-- Balanced code outside of all loops is certified. -/
lemma Balanced.certified {a b e : Nat} {code : List Instruction}
    (h : Balanced none a b 0 code e) : Certified code.toArray e := by
  obtain ⟨-, jumps, labels, hflow, hranges, hjumps⟩ := h
  refine ⟨jumps, labels, by simpa using hflow, ?_, hranges.nodup⟩
  intro jump hjump
  rcases hjumps jump hjump with hjump | ⟨_, hloop, -⟩
  · exact hjump
  · simp at hloop

/-- Closing a body adds a return on an empty stack at most. -/
lemma balanced_closeBody {a b : Nat} {code : List Instruction} (h : Balanced none a b 0 code 0)
    (ret : Ty) : Balanced none a b 0 (closeBody ret code.toArray).toList 0 := by
  rw [closeBody]
  split
  · have closed := h.append (.leaving (Flow.ret 0) (by simp) : Balanced none b b 0 [.ret] 0)
    simpa using closed
  · simpa using h

/-- A closed body that returns nothing ends in a return. -/
lemma back?_closeBody {ret : Ty} (hvoid : ret = .void) (code : Code) :
    ∃ i, (closeBody ret code).back? = some i ∧ i.endsBlock = true := by
  subst hvoid
  rw [closeBody]
  split
  · exact ⟨.ret, by simp, rfl⟩
  · next hends =>
      have returned : code.endsWithReturn = true := by
        simpa [Ty.isVoid] using hends
      rw [Code.endsWithReturn] at returned
      split at returned
      · next i hi =>
          refine ⟨i, hi, ?_⟩
          cases i <;> simp_all [isReturn, endsBlock]
      · simp at returned

lemma BodyCode.balanced {symbols : SymbolTable} {shared : Shared} {slots : Slots}
    {body : List Stmt} {scope : ScopeId} {ret : Ty} {code : Code} {issued : Nat}
    (h : BodyCode symbols shared slots body scope ret code issued) :
    Balanced none shared.labels.issued issued 0 code.toList 0 := by
  obtain ⟨hcode⟩ := h
  exact balanced_closeBody hcode.balanced ret

/-! ## Methods -/

/-- **What the depth analysis makes of a method.**  Nothing goes wrong with its depths: no operand
is missing, no place has two depths, no label is missing or defined twice.  So the analysis accepts
it, as long as it can count them.  Its reachable returns are met on an empty stack, or on the value
they return and nothing else, and the depth at its end is as told. -/
structure Profiled (m : Method) (exit : Option Nat → Prop) : Prop where
  consistent : Consistent m.code
  clean : ReturnsClean m.code 0
  accepted : Narrow m.code → ∃ profile, analyze m.code = .ok profile ∧
    (∀ place d : Nat, m.code[place]? = some .ret → profile.depths[place]? = some (some d) →
      d = 0) ∧
    (∀ place d : Nat, m.code[place]? = some .retValue → profile.depths[place]? = some (some d) →
      d = 1) ∧
    exit profile.exitDepth

lemma Profiled.of_balanced {m : Method} {a b : Nat} (h : Balanced none a b 0 m.code.toList 0) :
    Profiled m fun exit => exit = none ∨ exit = some 0 := by
  obtain ⟨hconsistent, hclean⟩ : Consistent m.code ∧ ReturnsClean m.code 0 := by
    simpa using h.certified.consistent
  refine ⟨hconsistent, hclean, fun hnarrow => ?_⟩
  obtain ⟨profile, hprofile⟩ := hconsistent.analyze hnarrow
  have described := describes_of_analyze hprofile
  refine ⟨profile, hprofile, ?_, ?_, ?_⟩
  · intro place d hi hd
    exact hclean.ret ((described.reached (place_lt_of_getElem? hi)).1 hd) hi
  · intro place d hi hd
    exact hclean.retValue ((described.reached (place_lt_of_getElem? hi)).1 hd) hi
  · cases hexit : profile.exitDepth with
    | none => exact .inl rfl
    | some d => exact .inr (by rw [hclean.exit (described.exit.1 hexit)])

/-- What is told of the end may be told in other words, given what is known of its depth. -/
lemma Profiled.imp {m : Method} {exit exit' : Option Nat → Prop} (h : Profiled m exit)
    (himp : ∀ {profile : StackProfile}, profile.Describes m.code → exit profile.exitDepth →
      exit' profile.exitDepth) : Profiled m exit' := by
  refine ⟨h.consistent, h.clean, fun hnarrow => ?_⟩
  obtain ⟨profile, hprofile, hret, hvalue, hexit⟩ := h.accepted hnarrow
  exact ⟨profile, hprofile, hret, hvalue, himp (describes_of_analyze hprofile) hexit⟩

lemma Profiled.of_closed {m : Method} {a b : Nat} (h : Balanced none a b 0 m.code.toList 0)
    (hclosed : ∃ i, m.code.back? = some i ∧ i.endsBlock = true) :
    Profiled m fun exit => exit = none := by
  obtain ⟨i, hlast, hends⟩ := hclosed
  refine (Profiled.of_balanced h).imp fun described _ => ?_
  rw [Option.eq_none_iff_forall_ne_some]
  intro d hd
  exact not_reaches_size hlast hends d (described.exit.1 hd)

lemma balanced_entryPoint (config : Config) (a : Nat) :
    Balanced none a a 0 (entryPoint config).code.toList 0 := by
  have made : Balanced none a a 0 [.new config.className,
      .invoke .special ⟨config.className, constructorName, "()V"⟩] 0 := by
    have harity : MethodRef.arity ⟨config.className, constructorName, "()V"⟩ = 0 := by
      show Descriptor.arity "()V" = 0
      decide
    have hresult : MethodRef.returnsValue ⟨config.className, constructorName, "()V"⟩ = false := by
      show Descriptor.returnsValue "()V" = false
      decide
    refine .straight ?_
    simp [straightDepth?, isStraight, depthAfter, pops, pushes, harity, hresult]
  exact made.append (.leaving (Flow.ret 0) (by simp))

lemma profiled_entryPoint (config : Config) :
    Profiled (entryPoint config) fun exit => exit = none :=
  .of_closed (balanced_entryPoint config 0) ⟨.ret, rfl, rfl⟩

lemma FunctionCode.profiled {config : Config} {p : CheckedProgram} {shared shared' : Shared}
    {name : String} {m : Method} (h : FunctionCode config p shared name m shared') :
    m.name = name ∧ ∃ binding, p.symbols.functionBinding? .global name = some binding ∧
      Profiled m fun exit => exit = none ∨ (binding.returnType ≠ .void ∧ exit = some 0) := by
  cases h with
  | @mk binding _ _ code _ hbinding _ _ _ hbody =>
      refine ⟨rfl, binding, hbinding, ?_⟩
      have hbalanced := hbody.balanced
      by_cases hvoid : binding.returnType = .void
      · have closed : ∃ i, code.back? = some i ∧ i.endsBlock = true := by
          obtain ⟨-⟩ := hbody
          exact back?_closeBody hvoid _
        exact (Profiled.of_closed (m := method config name _ false code) hbalanced closed).imp
          fun _ h => .inl h
      · exact (Profiled.of_balanced (m := method config name _ false code) hbalanced).imp
          fun _ h => h.imp_right fun h => ⟨hvoid, h⟩

lemma FunctionsCode.profiled {config : Config} {p : CheckedProgram} {shared shared' : Shared}
    {names : List String} {methods : List Method}
    (h : FunctionsCode config p shared names methods shared') :
    List.Forall₂ (fun name m => m.name = name ∧
      ∃ binding, p.symbols.functionBinding? .global name = some binding ∧
        Profiled m fun exit => exit = none ∨ (binding.returnType ≠ .void ∧ exit = some 0))
      names methods := by
  induction h with
  | nil => exact .nil
  | cons hfirst _ ih => exact .cons hfirst.profiled ih

lemma BodyCode.balanced_entryMethod {symbols : SymbolTable} {shared : Shared} {slots : Slots}
    {body : List Stmt} {scope : ScopeId} {ret : Ty} {code : Code} {issued : Nat} (config : Config)
    (h : BodyCode symbols shared slots body scope ret code issued) :
    Balanced none shared.labels.issued issued 0 (entryMethod config code).code.toList 0 := by
  have prologue : Balanced none shared.labels.issued shared.labels.issued 0
      [.load 0, .construct .objectInit] 0 := .straight rfl
  simpa [entryMethod, method] using prologue.append h.balanced

lemma BodyCode.profiled_entryMethod {symbols : SymbolTable} {shared : Shared} {slots : Slots}
    {body : List Stmt} {scope : ScopeId} {code : Code} {issued : Nat} (config : Config)
    (h : BodyCode symbols shared slots body scope .void code issued) :
    Profiled (entryMethod config code) fun exit => exit = none := by
  obtain ⟨i, hlast, hends⟩ : ∃ i, code.back? = some i ∧ i.endsBlock = true := by
    obtain ⟨-⟩ := h
    exact back?_closeBody rfl _
  refine .of_closed (h.balanced_entryMethod config) ⟨i, ?_, hends⟩
  simp [entryMethod, method, hlast]

/-- **Every method of an assembled class passes the depth analysis.**  The first method is the
static entry point, the last the constructor, and between them stand the functions in the order of
emission.  Their reachable returns are met on an empty stack, or on one value if they return one;
the end of the entry point, of the constructor and of a function that returns nothing is out of
reach, that of another function is reached with an empty stack if at all. -/
theorem assemble_profiled {p : CheckedProgram} {config : Config} {c : ClassFile} {issued : Nat}
    (h : assemble p config = .ok (c, issued)) :
    ∃ main functions init, c.methods = main :: (functions ++ [init]) ∧
      (main.name = "main" ∧ Profiled main fun exit => exit = none) ∧
      (init.name = constructorName ∧ Profiled init fun exit => exit = none) ∧
      List.Forall₂ (fun name m => m.name = name ∧
        ∃ binding, p.symbols.functionBinding? .global name = some binding ∧
          Profiled m fun exit => exit = none ∨ (binding.returnType ≠ .void ∧ exit = some 0))
        p.reachable functions := by
  obtain ⟨-, functions, shared, code, hfunctions, hbody, rfl⟩ := assemble_ok_iff.1 h
  exact ⟨entryPoint config, functions, entryMethod config code, rfl,
    ⟨rfl, profiled_entryPoint config⟩, ⟨rfl, hbody.profiled_entryMethod config⟩,
    hfunctions.profiled⟩

/-- A program whose only function returns from inside a loop or not at all. -/
def loopingProgram : CheckedProgram :=
  let n : Expr := .ident { ty := .int, span := default } "n"
  let zero : Expr := .int { ty := .int, span := default } 0
  let test : Expr := .binary { ty := .bool, span := default } .gt n zero
  ({} : ProgramDraft).function "f" [⟨"n", .int⟩] .int
      [.loop default [.branch default test [.ret default (some n)] [.exitLoop default] none] none]
    |>.finish [.put default (.call { ty := .int, span := default }
      (.ident { ty := .int, span := default } "f") [zero])]

theorem assemble_loopingProgram_profiled :
    ∃ c issued, assemble loopingProgram {} = .ok (c, issued) ∧
      ∃ main functions init, c.methods = main :: (functions ++ [init]) ∧
        (main.name = "main" ∧ Profiled main fun exit => exit = none) ∧
        (init.name = constructorName ∧ Profiled init fun exit => exit = none) ∧
        List.Forall₂ (fun name m => m.name = name ∧
          ∃ binding, loopingProgram.symbols.functionBinding? .global name = some binding ∧
            Profiled m fun exit => exit = none ∨ (binding.returnType ≠ .void ∧ exit = some 0))
          ["f"] functions ∧
        ∀ m ∈ c.methods, (analyze m.code).toBool = true := by
  have assembled : ((assemble loopingProgram {}).toOption.any fun r =>
      r.1.methods.all fun m => (analyze m.code).toBool) = true := by decide +kernel
  cases h : assemble loopingProgram {} with
  | error e => simp [h, Except.toOption] at assembled
  | ok r =>
      obtain ⟨main, functions, init, hmethods, hmain, hinit, hfunctions⟩ := assemble_profiled h
      have accepted : ∀ m ∈ r.1.methods, (analyze m.code).toBool = true := by
        simpa [h, Except.toOption] using assembled
      exact ⟨r.1, r.2, rfl, main, functions, init, hmethods, hmain, hinit, hfunctions, accepted⟩

end StackBackend.Lowering
