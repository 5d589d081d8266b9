import StackBackend.Proofs.Typing.Acceptance
import StackBackend.Proofs.Typing.Methods
import StackBackend.Tree.Build

/-!
# Well-typed programs compile and do not go wrong

A checked program is well typed if its table is valid, every function to emit is bound and declared
with the same parameters, and all bodies are well typed.  Such a program becomes a class, and no run
of the class goes wrong.  Only a body that needs all slot numbers there are keeps it from being one.

* `WellTyped` — well-typed programs;
* `Overfull` — programs with a body that needs too many slots;
* `assemble_or_overfull` — well-typed programs compile, those apart;
* `callsSafe` — the functions of the class can be called safely, for any number of steps;
* `compile_safe_of_wellTyped` — both together, for runs of the entry point and of every function.

A method may call any other, also one that was lowered after it, so there is no order in which
methods could be shown safe one by one.  They are shown safe together, by induction on the number of
steps: a call takes one, and the called method is entered with fewer left.
-/

namespace StackBackend

/-! ## Well-typed programs -/

namespace CheckedProgram

/-- The signatures of the functions that are emitted. -/
def signatures (p : CheckedProgram) : Typing.Signatures := fun name =>
  if name ∈ p.reachable then
    (p.symbols.functionBinding? .global name).map fun binding =>
      (binding.argTypes, binding.returnType)
  else none

/-- What the names of a body stand for, given its variables and what it returns. -/
def context (p : CheckedProgram) (vars : String → Option Ty) (ret : Ty) : Typing.Context :=
  { symbols := p.symbols, vars, functions := p.signatures, ret }

end CheckedProgram

namespace Typing

open Lowering Machine

/-- **Whether a function is well typed**, given a type for each variable name: it is bound as it is
declared, its parameters are distinct variables, and its body is well typed. -/
def functionTyped (p : CheckedProgram) (vars : String → Option Ty) (name : String) : Bool :=
  match p.symbols.functionBinding? .global name, p.program.function? name with
  | some binding, some decl =>
    p.symbols.has binding.scope && binding.argTypes = decl.params.map Param.ty &&
      (decl.params.map Param.name).Nodup &&
      decl.params.all (fun param => vars param.name = some param.ty) &&
      (p.context vars binding.returnType).blockTyped false binding.scope decl.body
  | _, _ => false

/-- Whether the entry unit is well typed. -/
def entryTyped (p : CheckedProgram) (vars : String → Option Ty) : Bool :=
  (p.context vars .void).blockTyped false (p.symbols.enter .global (some p.program.main.scope))
    p.program.main.body

/-- **A program is well typed**: its table is valid and its bodies are well typed, with one type for
each variable name of a body. -/
structure WellTyped (p : CheckedProgram) : Prop where
  valid : p.symbols.validate = .ok ()
  functions : ∀ name ∈ p.reachable, ∃ vars, functionTyped p vars name = true
  entry : ∃ vars, entryTyped p vars = true

/-- What it takes for a function to be well typed. -/
structure FunctionTyped (p : CheckedProgram) (vars : String → Option Ty) (name : String)
    (binding : FunctionBinding) (decl : FunctionDecl) : Prop where
  bound : p.symbols.functionBinding? .global name = some binding
  declared : p.program.function? name = some decl
  scope : p.symbols.has binding.scope = true
  argTypes : binding.argTypes = decl.params.map Param.ty
  distinct : (decl.params.map Param.name).Nodup
  params : ∀ param ∈ decl.params, vars param.name = some param.ty
  body : (p.context vars binding.returnType).blockTyped false binding.scope decl.body = true

lemma WellTyped.exists_function {p : CheckedProgram} (h : WellTyped p) {name : String}
    (hname : name ∈ p.reachable) : ∃ vars binding decl, FunctionTyped p vars name binding decl := by
  obtain ⟨vars, htyped⟩ := h.functions name hname
  rw [functionTyped] at htyped
  split at htyped
  · next binding decl hbound hdeclared =>
      simp only [Bool.and_eq_true, decide_eq_true_eq, List.all_eq_true] at htyped
      obtain ⟨⟨⟨⟨hscope, hargs⟩, hdistinct⟩, hparams⟩, hbody⟩ := htyped
      exact ⟨vars, binding, decl, hbound, hdeclared, hscope, hargs, hdistinct, hparams, hbody⟩
  · simp at htyped

/-- **A program with a body that needs every slot number there is**, or more: a function, with its
parameters, or the entry unit. -/
inductive Overfull (p : CheckedProgram) : Prop
  | function {name : String} {binding : FunctionBinding} {decl : FunctionDecl} :
      name ∈ p.reachable → p.symbols.functionBinding? .global name = some binding →
      p.program.function? name = some decl →
      slotLimit ≤
        (Demand.ofParams decl.params ++ Stmt.needIn p.symbols binding.scope decl.body 0).size →
      Overfull p
  | entry : slotLimit ≤ (Stmt.needIn p.symbols
      (p.symbols.enter .global (some p.program.main.scope)) p.program.main.body 0).size →
      Overfull p

section Compiling

variable {p : CheckedProgram} {config : Config}

lemma signatures_of_mem {name : String} (hname : name ∈ p.reachable) {binding : FunctionBinding}
    (hbinding : p.symbols.functionBinding? .global name = some binding) :
    p.signatures name = some (binding.argTypes, binding.returnType) := by
  simp [CheckedProgram.signatures, hname, hbinding]

lemma mem_of_signatures {name : String} {signature : List Ty × Ty}
    (h : p.signatures name = some signature) : name ∈ p.reachable := by
  rw [CheckedProgram.signatures] at h
  split at h
  · next hname => exact hname
  · simp at h

/-- The return types known to a body are those of functions. -/
def Announced (p : CheckedProgram) (returns : NameMap Ty) : Prop :=
  ∀ name ty, returns.find? name = some ty →
    ∃ binding, p.symbols.functionBinding? .global name = some binding ∧ binding.returnType = ty

lemma announced_empty : Announced p ({} : Shared).returns := by
  intro name ty h
  simp at h

lemma Announced.insert {returns : NameMap Ty} (h : Announced p returns) {name : String}
    {binding : FunctionBinding}
    (hbinding : p.symbols.functionBinding? .global name = some binding) :
    Announced p (returns.insert name binding.returnType) := by
  intro other ty hother
  rw [NameMap.find?_insert] at hother
  split at hother
  · next same => exact ⟨binding, same ▸ hbinding, by simpa using hother⟩
  · exact h other ty hother

lemma Announced.functions {shared shared' : Shared} (hshared : Announced p shared.returns)
    {names : List String} {methods : List Method}
    (h : FunctionsCode config p shared names methods shared') : Announced p shared'.returns := by
  induction h with
  | nil => exact hshared
  | cons hfirst _ ih =>
      cases hfirst with
      | mk hbinding _ _ _ _ => exact ih (hshared.insert hbinding)

/-- What is known of the functions agrees with their signatures. -/
lemma Announced.agrees {returns : NameMap Ty} (h : Announced p returns) (vars : String → Option Ty)
    (ret : Ty) : Agrees ⟨p.symbols, returns⟩ (p.context vars ret) where
  symbols := rfl
  returns {name ty signature} hty hsignature := by
    obtain ⟨binding, hbinding, rfl⟩ := h name ty hty
    have hsignature : p.signatures name = some signature := hsignature
    rw [CheckedProgram.signatures, hbinding] at hsignature
    split at hsignature
    · simp only [Option.map_some, Option.some.injEq] at hsignature
      rw [← hsignature]
    · simp at hsignature

/-- A well-typed body is lowered, or needs every slot number. -/
lemma lowerBody_or_full {shared : Shared} (hshared : Announced p shared.returns)
    {vars : String → Option Ty} {ret : Ty} {scope : ScopeId} {body : List Stmt}
    (ht : (p.context vars ret).blockTyped false scope body = true) {slots : Slots} {d : Demand}
    (hslots : slots.Meets d) :
    (∃ code issued, BodyCode p.symbols shared slots body scope ret code issued) ∨
      lowerBody p.symbols shared slots body scope ret = .error .outOfSlots ∧
        slotLimit ≤ (d ++ Stmt.needIn p.symbols scope body 0).size := by
  have settles := (hshared.agrees vars ret).settles_lowerBlock body ht
  have needs := law_needs.lowerBlock ⟨p.symbols, shared.returns⟩ scope body
  rcases settles.does_or_runsOut (law_fills.lowerBlock _ _ _) needs
      (s := { labels := shared.labels, slots }) (by simp) with ⟨_, s, hdoes⟩ | hout
  · obtain ⟨code, u, hcode, -⟩ := blockCode_of_does body hdoes
    exact .inl ⟨_, _, .mk hcode⟩
  · have meets := (needs { labels := shared.labels, slots }).meets hslots rfl
    refine .inr ⟨?_, Nat.le_trans hout.full meets.size_le⟩
    have hfails := hout.fails
    rw [lowerBody]
    split
    · next e s hrun => simpa [Emit.ending, hrun] using hfails
    · next s hrun => simp [Emit.ending, hrun] at hfails

/-- So is a well-typed function. -/
lemma lowerFunction_or_overfull (config : Config) (h : WellTyped p) {name : String}
    (hname : name ∈ p.reachable) {shared : Shared} (hshared : Announced p shared.returns) :
    (∃ m shared', FunctionCode config p shared name m shared' ∧ Announced p shared'.returns) ∨
      lowerFunction config p shared name = .error .outOfSlots ∧ Overfull p := by
  obtain ⟨vars, binding, decl, hfunction⟩ := h.exists_function hname
  have announced : Announced p
      { shared with returns := shared.returns.insert name binding.returnType }.returns :=
    hshared.insert hfunction.bound
  rw [lowerFunction, hfunction.bound, hfunction.declared]
  rcases paramSlots_or_full (Slots.meets_empty (.ofParams decl.params))
      fun param hparam => List.mem_map_of_mem hparam with ⟨slots, hslots, hmeets⟩ | ⟨hslots, hfull⟩
  · rcases lowerBody_or_full announced hfunction.body hmeets with
      ⟨code, issued, hcode⟩ | ⟨hfails, hfull⟩
    · exact .inl ⟨_, _, .mk hfunction.bound hfunction.declared hfunction.scope hslots hcode,
        announced⟩
    · exact .inr ⟨by simp [hfunction.scope, hslots, hfails, bind, Except.bind],
        .function hname hfunction.bound hfunction.declared hfull⟩
  · exact .inr ⟨by simp [hfunction.scope, hslots, bind, Except.bind], .function hname
      hfunction.bound hfunction.declared (Nat.le_trans hfull (Demand.size_le_append _ _))⟩

/-- **Well-typed functions have methods**, or one of them needs every slot number. -/
lemma lowerFunctions_or_overfull (config : Config) (h : WellTyped p) {names : List String}
    (hnames : ∀ name ∈ names, name ∈ p.reachable) {shared : Shared}
    (hshared : Announced p shared.returns) :
    (∃ methods shared', FunctionsCode config p shared names methods shared' ∧
        Announced p shared'.returns) ∨
      lowerFunctions config p shared names = .error .outOfSlots ∧ Overfull p := by
  induction names generalizing shared with
  | nil => exact .inl ⟨[], shared, .nil, hshared⟩
  | cons name names ih =>
      rw [lowerFunctions]
      rcases lowerFunction_or_overfull config h (hnames name List.mem_cons_self) hshared with
        ⟨m, after, hfirst, hafter⟩ | ⟨hfails, hfull⟩
      · rcases ih (fun other hother => hnames other (List.mem_cons_of_mem _ hother)) hafter with
          ⟨methods, shared', hrest, hshared'⟩ | ⟨hfails, hfull⟩
        · exact .inl ⟨m :: methods, shared', .cons hfirst hrest, hshared'⟩
        · exact .inr ⟨by simp [lowerFunction_ok_iff.2 hfirst, hfails, bind, Except.bind], hfull⟩
      · exact .inr ⟨by rw [hfails]; rfl, hfull⟩

/-- **A well-typed program is assembled**, or one of its bodies needs every slot number. -/
lemma assemble_or_overfull (h : WellTyped p) (config : Config) :
    (∃ cf issued, assemble p config = .ok (cf, issued)) ∨
      assemble p config = .error .outOfSlots ∧ Overfull p := by
  rcases lowerFunctions_or_overfull config h (fun name hname => hname) announced_empty with
    ⟨functions, shared, hfunctions, hshared⟩ | ⟨hfails, hfull⟩
  · obtain ⟨vars, htyped⟩ := h.entry
    rcases lowerBody_or_full hshared htyped (Slots.meets_empty ∅) with
      ⟨code, issued, hcode⟩ | ⟨hfails, hfull⟩
    · exact .inl ⟨_, _,
        assemble_ok_iff.2 ⟨h.valid, functions, shared, code, hfunctions, hcode, rfl⟩⟩
    · rw [Demand.empty_append] at hfull
      refine .inr ⟨?_, .entry hfull⟩
      simp [assemble, h.valid, lowerFunctions_ok_iff.2 hfunctions, lowerEntry, hfails, bind,
        Except.bind]
  · refine .inr ⟨?_, hfull⟩
    simp [assemble, h.valid, hfails, bind, Except.bind]

end Compiling

/-! ## Safety -/

section Safety

variable {p : CheckedProgram} {config : Config} {cf : ClassFile} {n : Nat}

/-- The method of a function can be called, if functions can for fewer steps. -/
lemma callSafe_function (hapart : ∀ m : LibraryMethod, m.ref.owner ≠ cf.name) (h : WellTyped p)
    {name : String} (hname : name ∈ p.reachable) {m : Method} {before after : Shared}
    (hresolve : cf.resolve name = .ok m) (hbefore : Announced p before.returns)
    (hcode : FunctionCode config p before name m after)
    (hcalls : ∀ k < n, CallsSafe cf p.signatures k) {tys : List Ty} {ret : Ty}
    (hsignature : p.signatures name = some (tys, ret)) :
    CallSafe cf p.signatures n name tys ret := by
  obtain ⟨vars, binding, decl, hfunction⟩ := h.exists_function hname
  cases hcode with
  | @mk binding' decl' slots code issued hbinding hdecl _ hslots hbody =>
      obtain rfl : binding' = binding := by simpa [hfunction.bound] using hbinding.symm
      obtain rfl : decl' = decl := by simpa [hfunction.declared] using hdecl.symm
      rw [signatures_of_mem hname hbinding, Option.some.injEq, Prod.mk.injEq] at hsignature
      obtain ⟨rfl, rfl⟩ := hsignature
      rw [hfunction.argTypes]
      have stands : code.toList = ([] : List Instruction) ++ code.toList := rfl
      exact ⟨_, hresolve, hbody.balanced.exists_labelTable,
        enters_body (Γ := p.context vars binding'.returnType) hapart hslots hbody
          ((hbefore.insert hbinding).agrees vars _) hfunction.body hfunction.distinct
          hfunction.params rfl stands (fun _ => ⟨0, .refl _ _⟩) hcalls⟩

/-- So can the constructor. -/
lemma callSafe_constructor (hapart : ∀ m : LibraryMethod, m.ref.owner ≠ cf.name) (h : WellTyped p)
    {shared : Shared} {code : Code} {issued : Nat}
    (hresolve : cf.resolve constructorName = .ok (entryMethod config code))
    (hshared : Announced p shared.returns)
    (hcode : BodyCode p.symbols shared .empty p.program.main.body
      (p.symbols.enter .global (some p.program.main.scope)) .void code issued)
    (hcalls : ∀ k < n, CallsSafe cf p.signatures k) :
    CallSafe cf p.signatures n constructorName [] .void := by
  obtain ⟨vars, htyped⟩ := h.entry
  have prologue : ∀ {s : Site} {locals : Array Value} {w : World},
      s.Has 0 [.load 0, .construct .objectInit] →
      ∃ k, s.Steps ⟨0, [], locals, w⟩ k ⟨2, [], locals, w⟩ := by
    intro s locals w hcode
    simp only [Site.has_cons] at hcode
    exact ⟨2, (Site.step_load hcode.1).trans (Site.step_construct hcode.2.1 [] rfl rfl rfl)⟩
  have stands : (entryMethod config code).code.toList
      = [.load 0, .construct .objectInit] ++ code.toList := by
    simp [entryMethod, method]
  have unnamed : paramSlots .empty [] = .ok .empty := rfl
  exact ⟨_, hresolve, (hcode.balanced_entryMethod config).exists_labelTable,
    enters_body (Γ := p.context vars .void) hapart unnamed hcode (hshared.agrees vars _) htyped .nil
      (by simp) rfl stands prologue hcalls⟩

/-- **All methods are safe**, for any number of steps. -/
theorem callsSafe (hapart : ∀ m : LibraryMethod, m.ref.owner ≠ cf.name) (h : WellTyped p)
    {issued : Nat} (hassembled : assemble p config = .ok (cf, issued)) (n : Nat) :
    CallsSafe cf p.signatures n ∧ CallSafe cf p.signatures n constructorName [] .void := by
  induction n using Nat.strongRecOn with
  | ind n ih =>
      have hcalls : ∀ k < n, CallsSafe cf p.signatures k := fun k hk => (ih k hk).1
      have hinit : ∀ k < n, CallSafe cf p.signatures k constructorName [] .void :=
        fun k hk => (ih k hk).2
      have functions : CallsSafe cf p.signatures n := by
        intro name tys ret hsignature
        have hname := mem_of_signatures hsignature
        by_cases hmain : name = "main"
        · subst hmain
          exact ⟨_, Frame.resolve_of_method? (method?_main hassembled), ⟨[], rfl⟩,
            enters_entryPoint hapart (name_of_assemble hassembled) hinit tys ret⟩
        · obtain ⟨_, _, _, before, after, m, -, hbefore, hcode, hfound⟩ :=
            method?_function hassembled hname hmain
          exact callSafe_function hapart h hname (Frame.resolve_of_method? hfound)
            (announced_empty.functions hbefore) hcode hcalls hsignature
      refine ⟨functions, ?_⟩
      by_cases htaken : constructorName ∈ p.reachable
      · obtain ⟨_, binding, _, hfunction⟩ := h.exists_function htaken
        exact (functions _ _ _ (signatures_of_mem htaken hfunction.bound)).bare
      · obtain ⟨functions, shared, code, hfunctions, hcode, hfound⟩ :=
          method?_constructor hassembled
        exact callSafe_constructor hapart h (Frame.resolve_of_method? (hfound htaken))
          (announced_empty.functions hfunctions) hcode hcalls

/-- **A run of a method does not go wrong** if the method can be entered for any number of steps. -/
lemma not_goesWrong_of_enters {session : Session} {functions : Signatures} {tys : List Ty}
    {ret : Ty} {method : Method} (hlabels : ∃ labels, labelTable method.code = .ok labels)
    (henters : ∀ n, Enters session.classFile functions n method tys ret) {M : Memory functions}
    (hheap : M.heap = session.world.heap) {args : List Value} (hargs : M.ArgsFit args tys)
    (receiver : Option Value) :
    ¬ GoesWrong
      (session.start 1 (Frame.call method receiver args session.world.depth .ifAny)).1 := by
  rintro ⟨fault, hfault, hwrong⟩
  have benign : fault.isBenign = true := by
    cases hcall : Frame.call method receiver args session.world.depth .ifAny with
    | error fault' =>
        obtain ⟨labels, hlabels⟩ := hlabels
        obtain rfl : fault' = fault := by simpa [Session.start, hcall] using hfault
        exact isBenign_of_call hlabels hcall
    | ok frame =>
        -- a run without callers is over when the method is left
        have safe := henters (session.stepLimit - session.steps) M args receiver _ frame [] .ifAny
          session.world.printed (session.world.depth + 1) hargs hcall fun _ _ _ _ _ _ => trivial
        rw [hheap] at safe
        rw [hcall] at hfault
        exact safe _ _ _ fault (Nat.le_refl _) hfault
  simp [benign] at hwrong

/-- **Well-typed programs compile and do not go wrong.**  Only a body that needs every slot number
there is keeps one from being compiled.  The class may have any name that no library class has.
Neither does a run of its entry point go wrong, nor a call of a function with arguments of its
parameters' types. -/
theorem compile_safe_of_wellTyped (p : CheckedProgram) (h : WellTyped p) (config : Config) :
    (compile p config = .error .outOfSlots ∧ Overfull p) ∨
    ∃ cf, compile p config = .ok cf ∧
      ((∀ m : LibraryMethod, m.ref.owner ≠ config.className) →
        ∀ session : Session, session.classFile = cf →
          ¬ GoesWrong session.runMain.1 ∧
          ∀ (M : Memory p.signatures) (receiver : Value) (name : String) (args : List Value)
            (tys : List Ty) (ret : Ty), M.heap = session.world.heap →
            p.signatures name = some (tys, ret) → M.ArgsFit args tys →
            ¬ GoesWrong (session.invoke receiver name args).1) := by
  rw [compile]
  rcases assemble_or_overfull h config with ⟨cf, issued, hassembled⟩ | ⟨hfails, hfull⟩
  case inr => exact .inl ⟨by rw [hfails]; rfl, hfull⟩
  refine .inr ⟨cf, by rw [hassembled]; rfl, ?_⟩
  rintro hapart session rfl
  have hname := name_of_assemble hassembled
  rw [← hname] at hapart
  have safe := callsSafe hapart h hassembled
  constructor
  · have found : session.classFile.methods.find? (fun m => m.name == "main" && m.isStatic)
        = some (entryPoint config) := by
      obtain ⟨-, functions, shared, code, -, -, hclass⟩ := assemble_ok_iff.1 hassembled
      rw [hclass]
      rfl
    rw [Session.runMain, found]
    have hargs : (Memory.ofHeap session.world.heap : Memory p.signatures).ArgsFit [.null] [.void] :=
      Memory.argsFit_of_forall₂ (.cons .null .nil)
    exact not_goesWrong_of_enters ⟨[], rfl⟩
      (fun n => enters_entryPoint hapart hname (fun k _ => (safe k).2) [.void] .void) rfl hargs none
  · intro M receiver f args tys ret hheap hsignature hargs
    obtain ⟨method, hresolve, hlabels, -⟩ := (safe 0).1 f tys ret hsignature
    have henters : ∀ n, Enters session.classFile p.signatures n method tys ret := by
      intro n
      obtain ⟨method', hresolve', -, henters⟩ := (safe n).1 f tys ret hsignature
      obtain rfl : method = method' := by simpa [hresolve] using hresolve'
      exact henters
    have invoked : session.invoke receiver f args
        = session.start 1
          (Frame.call method (some receiver) args session.world.depth .ifAny) := by
      rw [Session.invoke, hresolve]
      rfl
    rw [invoked]
    exact not_goesWrong_of_enters hlabels henters hheap hargs (some receiver)

end Safety

/-! ## A program -/

section Parity

open Build

/-- The type of the functions below that are passed around. -/
def predicate : Ty := .fptr [.int] .bool

/-- The body of a function that counts down and asks the other one. -/
def parityBody (answer : Bool) (other : String) : List Stmt :=
  [branch (binary .eq (ident "n" .int) (int 0)) [ret (some (bool answer))] [],
   ret (some (call other [binary .sub (ident "n" .int) (int 1)] .bool))]

/-- The body of a function that calls what it is given, and returns a list. -/
def testBody : List Stmt :=
  [ret (some (list .bool [call "which" [index (ident "of" (.list .int)) (int 0)] .bool]))]

/-- The entry unit: a list of functions, one of which is passed on. -/
def parityMain : List Stmt :=
  [assign (ident "tests" (.list predicate)) .assign
     (list predicate [ident "even" predicate, fnPtr "odd" predicate]),
   put (call "test" [index (ident "tests" (.list predicate)) (int 1), list .int [int 7]]
     (.list .bool))]

/-- A program with two functions that call each other, the first before the second is lowered, a
third that calls what it is given, and a list of functions. -/
def parityProgram : CheckedProgram :=
  ({} : ProgramDraft).function "even" [⟨"n", .int⟩] .bool (parityBody true "odd")
    |>.function "odd" [⟨"n", .int⟩] .bool (parityBody false "even")
    |>.function "test" [⟨"which", predicate⟩, ⟨"of", .list .int⟩] (.list .bool) testBody
    |>.finish parityMain

end Parity

/-- Its variables. -/
def parityVars : String → Option Ty
  | "n" => some .int
  | "which" => some predicate
  | "of" => some (.list .int)
  | "tests" => some (.list predicate)
  | _ => none

lemma wellTyped_parityProgram : WellTyped parityProgram where
  valid := by decide +kernel
  functions := by
    have typed : ∀ name ∈ parityProgram.reachable,
        functionTyped parityProgram parityVars name = true := by
      decide +kernel
    exact fun name hname => ⟨parityVars, typed name hname⟩
  entry := ⟨parityVars, by decide +kernel⟩

theorem compile_parityProgram_safe :
    ∃ cf, compile parityProgram {} = .ok cf ∧
      ¬ GoesWrong (Session.runMain { classFile := cf }).1 ∧
      ¬ GoesWrong (Session.invoke { classFile := cf } .null "even" [.integer 3]).1 := by
  have compiles : compile parityProgram {} ≠ .error .outOfSlots := by decide +kernel
  obtain ⟨cf, hcompile, hsafe⟩ :=
    (compile_safe_of_wellTyped parityProgram wellTyped_parityProgram {}).resolve_left
      fun fails => compiles fails.1
  have apart : ∀ m : LibraryMethod, m.ref.owner ≠ "Main" := by
    intro m
    cases m with
    | println what => cases what <;> decide
    | _ => decide
  have signature : parityProgram.signatures "even" = some ([.int], .bool) := by decide +kernel
  obtain ⟨hmain, hinvoke⟩ := hsafe apart { classFile := cf } rfl
  refine ⟨cf, hcompile, hmain, hinvoke (.ofHeap {}) .null "even" _ _ _ rfl signature ?_⟩
  exact Memory.argsFit_of_forall₂ (.cons (.int 3) .nil)

end Typing

end StackBackend
