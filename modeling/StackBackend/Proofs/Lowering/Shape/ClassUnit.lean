import StackBackend.Lowering.ClassUnit
import StackBackend.Proofs.Lowering.Shape.Statement

/-!
# The shape of an assembled class

Bodies are lowered one after another, and what one hands on to the next are the labels taken and
the return types known.  `FunctionCode` and `FunctionsCode` say what that makes of functions,
`BodyCode` what the code of one body is, and `assemble_ok_iff` puts a whole class together.
-/

namespace StackBackend.Lowering

open Emit

/-- **The code of a body**, from the labels and return types at hand to the labels taken. -/
inductive BodyCode (symbols : SymbolTable) (shared : Shared) (slots : Slots) (body : List Stmt)
    (scope : ScopeId) (ret : Ty) : Code → Nat → Prop
  | mk {code : List Instruction} {u : Supply} :
      BlockCode ⟨symbols, shared.returns⟩ 0 none scope ⟨shared.labels.issued, slots, 0⟩ body code
        u →
      BodyCode symbols shared slots body scope ret (closeBody ret code.toArray) u.labels

lemma lowerBody_ok_iff {symbols : SymbolTable} {shared shared' : Shared} {slots : Slots}
    {body : List Stmt} {scope : ScopeId} {ret : Ty} {code : Code} :
    lowerBody symbols shared slots body scope ret = .ok (code, shared') ↔
      ∃ issued, BodyCode symbols shared slots body scope ret code issued ∧
        shared' = { shared with labels := ⟨issued⟩ } := by
  have opened : lowerBody symbols shared slots body scope ret
      = match (lowerBlock ⟨symbols, shared.returns⟩ scope body).ending
          { labels := shared.labels, slots } with
        | (.error e, _) => .error e
        | (.ok _, s) => .ok (closeBody ret s.code, { shared with labels := s.labels }) := rfl
  -- a body starts with no code, so what is appended is all there is
  have emitted : ∀ {is : List Instruction} {u : Supply} {s : State},
      State.Grows { labels := shared.labels, slots } is u s → s.code = is.toArray := by
    intro is u s hgrows
    rw [hgrows.code]
    exact Array.toList_inj.1 (by simp)
  constructor
  · intro h
    rw [opened] at h
    split at h
    · simp at h
    · next s hs =>
        obtain ⟨is, u, hcode, hgrows⟩ := blockCode_of_does body hs
        simp only [Except.ok.injEq, Prod.mk.injEq] at h
        obtain ⟨rfl, rfl⟩ := h
        refine ⟨u.labels, ?_, by rw [hgrows.labels]⟩
        rw [emitted hgrows]
        exact .mk hcode
  · rintro ⟨issued, ⟨hcode⟩, rfl⟩
    obtain ⟨s, hs, hgrows⟩ := hcode.does { labels := shared.labels, slots } rfl rfl rfl
    rw [opened, hs]
    simp only [hgrows.labels, emitted hgrows]

/-- **The method of a function**, and what is shared after it. -/
inductive FunctionCode (config : Config) (p : CheckedProgram) (shared : Shared) (name : String) :
    Method → Shared → Prop
  | mk {binding : FunctionBinding} {decl : FunctionDecl} {slots : Slots} {code : Code}
      {issued : Nat} :
      p.symbols.functionBinding? .global name = some binding →
      p.program.function? name = some decl → p.symbols.has binding.scope = true →
      paramSlots .empty decl.params = .ok slots →
      BodyCode p.symbols
        { shared with returns := shared.returns.insert name binding.returnType }
        slots decl.body binding.scope binding.returnType code issued →
      FunctionCode config p shared name
        (method config name (methodDescriptor binding.argTypes binding.returnType) false code)
        ⟨⟨issued⟩, shared.returns.insert name binding.returnType⟩

lemma lowerFunction_ok_iff {config : Config} {p : CheckedProgram} {shared shared' : Shared}
    {name : String} {m : Method} :
    lowerFunction config p shared name = .ok (m, shared') ↔
      FunctionCode config p shared name m shared' := by
  constructor
  · intro h
    rw [lowerFunction] at h
    split at h
    · next binding decl hbinding hdecl =>
        split at h
        · next hscope =>
            cases hslots : paramSlots .empty decl.params with
            | error e => simp [hslots, bind, Except.bind] at h
            | ok slots =>
                cases hbody : lowerBody p.symbols
                    { shared with returns := shared.returns.insert name binding.returnType }
                    slots decl.body binding.scope binding.returnType with
                | error e => simp [hslots, hbody, bind, Except.bind] at h
                | ok result =>
                    obtain ⟨code, shared''⟩ := result
                    simp only [hslots, hbody, bind, Except.bind, Except.ok.injEq,
                      Prod.mk.injEq] at h
                    obtain ⟨rfl, rfl⟩ := h
                    obtain ⟨issued, hcode, rfl⟩ := lowerBody_ok_iff.1 hbody
                    exact .mk hbinding hdecl hscope hslots hcode
        · simp at h
    · simp at h
  · rintro ⟨hbinding, hdecl, hscope, hslots, hcode⟩
    have hbody := lowerBody_ok_iff.2 ⟨_, hcode, rfl⟩
    rw [lowerFunction]
    simp [hbinding, hdecl, hscope, hslots, hbody, bind, Except.bind]

/-- The methods of functions in order. -/
inductive FunctionsCode (config : Config) (p : CheckedProgram) :
    Shared → List String → List Method → Shared → Prop
  | nil {shared : Shared} : FunctionsCode config p shared [] [] shared
  | cons {shared shared' shared'' : Shared} {name : String} {names : List String} {m : Method}
      {methods : List Method} :
      FunctionCode config p shared name m shared' →
      FunctionsCode config p shared' names methods shared'' →
      FunctionsCode config p shared (name :: names) (m :: methods) shared''

lemma lowerFunctions_ok_iff {config : Config} {p : CheckedProgram} {names : List String}
    {shared shared' : Shared} {methods : List Method} :
    lowerFunctions config p shared names = .ok (methods, shared') ↔
      FunctionsCode config p shared names methods shared' := by
  induction names generalizing shared methods with
  | nil =>
      simp only [lowerFunctions, Except.ok.injEq, Prod.mk.injEq]
      constructor
      · rintro ⟨rfl, rfl⟩
        exact .nil
      · rintro ⟨⟩
        exact ⟨rfl, rfl⟩
  | cons name names ih =>
      constructor
      · intro h
        rw [lowerFunctions] at h
        cases hfirst : lowerFunction config p shared name with
        | error e => simp [hfirst, bind, Except.bind] at h
        | ok first =>
            obtain ⟨m, middle⟩ := first
            cases hrest : lowerFunctions config p middle names with
            | error e => simp [hfirst, hrest, bind, Except.bind] at h
            | ok rest =>
                obtain ⟨ms, last⟩ := rest
                simp only [hfirst, hrest, bind, Except.bind, Except.ok.injEq, Prod.mk.injEq] at h
                obtain ⟨rfl, rfl⟩ := h
                exact .cons (lowerFunction_ok_iff.1 hfirst) (ih.1 hrest)
      · rintro (_ | ⟨hfirst, hrest⟩)
        have h1 := lowerFunction_ok_iff.2 hfirst
        have h2 := ih.2 hrest
        simp [lowerFunctions, h1, h2, bind, Except.bind]

/-! ### Methods by their names -/

section

variable {config : Config} {p : CheckedProgram} {shared shared' : Shared} {name : String}
  {names : List String} {m : Method} {methods : List Method}

lemma FunctionCode.name_eq (h : FunctionCode config p shared name m shared') : m.name = name := by
  cases h
  rfl

/-- A function of the list has a method, and the first of its name comes from its first place. -/
lemma FunctionsCode.exists_find? (h : FunctionsCode config p shared names methods shared')
    (hname : name ∈ names) :
    ∃ before after earlier middle last m, names = before ++ name :: after ∧
      FunctionsCode config p shared before earlier middle ∧
      FunctionCode config p middle name m last ∧ methods.find? (·.name == name) = some m := by
  induction h with
  | nil => simp at hname
  | @cons shared middle _ first names m methods hfirst _ ih =>
      by_cases same : first = name
      · subst same
        exact ⟨[], names, [], shared, middle, m, rfl, .nil, hfirst, by simp [hfirst.name_eq]⟩
      · obtain ⟨before, after, earlier, middle', last, m', rfl, hbefore, hcode, hfound⟩ :=
          ih ((List.mem_cons.1 hname).resolve_left (Ne.symm same))
        refine ⟨first :: before, after, m :: earlier, middle', last, m', rfl, .cons hfirst hbefore,
          hcode, ?_⟩
        simp [hfirst.name_eq, same, hfound]

/-- A name that is not in the list has no method. -/
lemma FunctionsCode.find?_eq_none (h : FunctionsCode config p shared names methods shared')
    (hname : name ∉ names) : methods.find? (·.name == name) = none := by
  induction h with
  | nil => rfl
  | cons hfirst _ ih =>
      rw [List.mem_cons, not_or] at hname
      simp [hfirst.name_eq, Ne.symm hname.1, ih hname.2]

end

/-! ### The class -/

/-- The constructor of a class: it initialises the receiver and runs the entry unit. -/
def entryMethod (config : Config) (code : Code) : Method :=
  method config constructorName "()V" false (#[.load 0, .construct .objectInit] ++ code)

lemma lowerEntry_ok_iff {config : Config} {p : CheckedProgram} {shared shared' : Shared}
    {m : Method} :
    lowerEntry config p shared = .ok (m, shared') ↔
      ∃ code issued, BodyCode p.symbols shared .empty p.program.main.body
          (p.symbols.enter .global (some p.program.main.scope)) .void code issued ∧
        m = entryMethod config code ∧ shared' = { shared with labels := ⟨issued⟩ } := by
  constructor
  · intro h
    cases hbody : lowerBody p.symbols shared .empty p.program.main.body
        (p.symbols.enter .global (some p.program.main.scope)) .void with
    | error e => simp [lowerEntry, hbody, bind, Except.bind] at h
    | ok result =>
        obtain ⟨code, shared''⟩ := result
        simp only [lowerEntry, hbody, bind, Except.bind, Except.ok.injEq, Prod.mk.injEq] at h
        obtain ⟨rfl, rfl⟩ := h
        obtain ⟨issued, hcode, rfl⟩ := lowerBody_ok_iff.1 hbody
        exact ⟨code, issued, hcode, rfl, rfl⟩
  · rintro ⟨code, issued, hcode, rfl, rfl⟩
    simp [lowerEntry, lowerBody_ok_iff.2 ⟨_, hcode, rfl⟩, entryMethod, bind, Except.bind]

/-- **What assembling makes of a program.** -/
theorem assemble_ok_iff {p : CheckedProgram} {config : Config} {c : ClassFile} {issued : Nat} :
    assemble p config = .ok (c, issued) ↔
      p.symbols.validate = .ok () ∧ ∃ functions shared code,
        FunctionsCode config p {} p.reachable functions shared ∧
        BodyCode p.symbols shared .empty p.program.main.body
          (p.symbols.enter .global (some p.program.main.scope)) .void code issued ∧
        c = { name := config.className, superName := ClassName.object
              methods := entryPoint config :: (functions ++ [entryMethod config code]) } := by
  rw [assemble]
  cases hvalid : p.symbols.validate with
  | error e => simp
  | ok u =>
      simp only [true_and]
      constructor
      · intro h
        cases hfunctions : lowerFunctions config p {} p.reachable with
        | error e => simp [hfunctions, bind, Except.bind] at h
        | ok result =>
            obtain ⟨functions, shared⟩ := result
            cases hentry : lowerEntry config p shared with
            | error e => simp [hfunctions, hentry, bind, Except.bind] at h
            | ok result =>
                obtain ⟨entry, shared'⟩ := result
                simp only [hfunctions, hentry, bind, Except.bind, Except.ok.injEq,
                  Prod.mk.injEq] at h
                obtain ⟨rfl, rfl⟩ := h
                obtain ⟨code, issued, hcode, rfl, rfl⟩ := lowerEntry_ok_iff.1 hentry
                exact ⟨functions, shared, code, lowerFunctions_ok_iff.1 hfunctions, hcode, rfl⟩
      · rintro ⟨functions, shared, code, hfunctions, hcode, rfl⟩
        have h1 := lowerFunctions_ok_iff.2 hfunctions
        have h2 : lowerEntry config p shared = .ok (entryMethod config code, _) :=
          lowerEntry_ok_iff.2 ⟨code, issued, hcode, rfl, rfl⟩
        simp [h1, h2, bind, Except.bind]

section

variable {config : Config} {p : CheckedProgram} {c : ClassFile} {issued : Nat} {name : String}

lemma name_of_assemble (h : assemble p config = .ok (c, issued)) : c.name = config.className := by
  obtain ⟨-, _, _, _, -, -, rfl⟩ := assemble_ok_iff.1 h
  rfl

/-- The entry point is found by its name, also where a function has that name. -/
lemma method?_main (h : assemble p config = .ok (c, issued)) :
    c.method? "main" = some (entryPoint config) := by
  obtain ⟨-, functions, shared, code, -, -, rfl⟩ := assemble_ok_iff.1 h
  rfl

/-- **The name of a function leads to its method**, at its first place in the order of emission,
unless it is the name of the entry point. -/
lemma method?_function (h : assemble p config = .ok (c, issued)) (hname : name ∈ p.reachable)
    (hmain : name ≠ "main") :
    ∃ before after earlier shared shared' m, p.reachable = before ++ name :: after ∧
      FunctionsCode config p {} before earlier shared ∧
      FunctionCode config p shared name m shared' ∧ c.method? name = some m := by
  obtain ⟨-, functions, _, code, hfunctions, -, rfl⟩ := assemble_ok_iff.1 h
  obtain ⟨before, after, earlier, shared, shared', m, hsplit, hbefore, hcode, hfound⟩ :=
    hfunctions.exists_find? hname
  refine ⟨before, after, earlier, shared, shared', m, hsplit, hbefore, hcode, ?_⟩
  have apart : (entryPoint config).name ≠ name := Ne.symm hmain
  simp [ClassFile.method?, apart, List.find?_append, hfound]

/-- The name of the constructor leads to it, unless a function has that name. -/
lemma method?_constructor (h : assemble p config = .ok (c, issued)) :
    ∃ functions shared code, FunctionsCode config p {} p.reachable functions shared ∧
      BodyCode p.symbols shared .empty p.program.main.body
        (p.symbols.enter .global (some p.program.main.scope)) .void code issued ∧
      (constructorName ∉ p.reachable →
        c.method? constructorName = some (entryMethod config code)) := by
  obtain ⟨-, functions, shared, code, hfunctions, hbody, rfl⟩ := assemble_ok_iff.1 h
  refine ⟨functions, shared, code, hfunctions, hbody, fun hfree => ?_⟩
  have apart : (entryPoint config).name ≠ constructorName := by
    show "main" ≠ "<init>"
    decide
  have named : (entryMethod config code).name = constructorName := rfl
  simp [ClassFile.method?, apart, named, List.find?_append, hfunctions.find?_eq_none hfree]

end

end StackBackend.Lowering
