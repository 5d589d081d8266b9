import StackBackend.Proofs.Lowering.ClassLabels
import StackBackend.Proofs.Lowering.Relocation
import StackBackend.Proofs.Machine.Renaming
import Mathlib.Data.List.Perm.Basic

/-!
# The order of emission

Functions are emitted in the order of `CheckedProgram.reachable`, and each is lowered with the
labels taken and the return types recorded by those before it.  Where calls are annotated with what
their functions return (`CheckedProgram.CallsAnnotated`) the order makes no difference but to the
numbers of labels.

**Alone.**  `LoweredAlone` is what a function is lowered to with nothing before it.  In any place of
any order it is lowered to that, with its labels raised by one number (`FunctionsCode.alone`), and
it can be lowered there if it can be lowered alone (`exists_lowered`).

**Assembled.**  So a program assembles exactly if its functions and its entry unit can be lowered
alone (`assembles_iff`), and the class runs as one put together from what they are lowered to alone
(`renamed_of_placed`).  None of this mentions an order; `assemble_reordered` draws the conclusions
for two orders.
-/

namespace StackBackend

namespace CheckedProgram

/-- The calls that are lowered, each with the scope it stands in. -/
def callSites (p : CheckedProgram) : List (ScopeId × Expr) :=
  Stmt.callSitesIn p.symbols (p.symbols.enter .global (some p.program.main.scope))
      p.program.main.body ++
    p.reachable.flatMap fun name =>
      match p.symbols.functionBinding? .global name, p.program.function? name with
      | some binding, some decl => Stmt.callSitesIn p.symbols binding.scope decl.body
      | _, _ => []

/-- A call is annotated with what the function returns, if the name called stands for a function
there and is to be emitted.  Return types are those of the global functions. -/
def Annotated (p : CheckedProgram) (scope : ScopeId) : Expr → Prop
  | .call note callee _ => ∀ name ∈ callee.ident?, (p.symbols.functionBinding? scope name).isSome →
      name ∈ p.reachable → ∀ global ∈ p.symbols.functionBinding? .global name,
        note.ty = global.returnType
  | _ => True

/-- **Every call of a function to emit is annotated with what the function returns.** -/
def CallsAnnotated (p : CheckedProgram) : Prop := ∀ site ∈ p.callSites, p.Annotated site.1 site.2

instance (p : CheckedProgram) (scope : ScopeId) (e : Expr) : Decidable (p.Annotated scope e) :=
  match e with
  | .call note callee _ => inferInstanceAs (Decidable (∀ name ∈ callee.ident?,
      (p.symbols.functionBinding? scope name).isSome → name ∈ p.reachable →
        ∀ global ∈ p.symbols.functionBinding? .global name, note.ty = global.returnType))
  | .int _ _ | .bool _ _ | .str _ _ | .ident _ _ | .fnPtr _ _ | .list _ _ | .index _ _ _
  | .binary _ _ _ _ | .unary _ _ _ | .len _ _ | .chop _ _ => isTrue trivial

instance (p : CheckedProgram) : Decidable p.CallsAnnotated :=
  inferInstanceAs (Decidable (∀ site ∈ p.callSites, p.Annotated site.1 site.2))

variable {p : CheckedProgram}

lemma mem_callSites_of_entry {site : ScopeId × Expr}
    (h : site ∈ Stmt.callSitesIn p.symbols (p.symbols.enter .global (some p.program.main.scope))
      p.program.main.body) : site ∈ p.callSites :=
  List.mem_append_left _ h

lemma mem_callSites_of_function {name : String} (hname : name ∈ p.reachable)
    {binding : FunctionBinding} (hbinding : p.symbols.functionBinding? .global name = some binding)
    {decl : FunctionDecl} (hdecl : p.program.function? name = some decl) {site : ScopeId × Expr}
    (h : site ∈ Stmt.callSitesIn p.symbols binding.scope decl.body) : site ∈ p.callSites := by
  refine List.mem_append_right _ (List.mem_flatMap.2 ⟨name, hname, ?_⟩)
  simpa only [hbinding, hdecl] using h

/-- The order of emission is not part of the condition. -/
lemma CallsAnnotated.perm (h : p.CallsAnnotated) {names : List String}
    (hperm : names.Perm p.reachable) : CallsAnnotated { p with reachable := names } := by
  rintro ⟨scope, call⟩ hsite
  have hsame : (scope, call) ∈ p.callSites := by
    rw [callSites, List.mem_append] at hsite ⊢
    exact hsite.imp id (hperm.flatMap_right _).mem_iff.1
  have annotated := h _ hsame
  cases call with
  | call note callee args =>
      intro name hcallee hfunction hname
      exact annotated name hcallee hfunction (hperm.mem_iff.1 hname)
  | _ => trivial

end CheckedProgram

namespace Lowering

variable {config : Config} {p : CheckedProgram}

/-! ## Return types on record -/

/-- The return types on record are those of functions to emit. -/
def Recorded (p : CheckedProgram) (returns : NameMap Ty) : Prop :=
  ∀ name ty, returns.find? name = some ty → name ∈ p.reachable ∧
    ∃ global, p.symbols.functionBinding? .global name = some global ∧ ty = global.returnType

lemma recorded_empty : Recorded p ({} : Shared).returns := by
  intro name ty h
  simp at h

lemma Recorded.insert {returns : NameMap Ty} (h : Recorded p returns) {name : String}
    (hname : name ∈ p.reachable) {binding : FunctionBinding}
    (hbinding : p.symbols.functionBinding? .global name = some binding) :
    Recorded p (returns.insert name binding.returnType) := by
  intro other ty hother
  rw [NameMap.find?_insert] at hother
  split at hother
  · next same =>
      subst same
      exact ⟨hname, binding, hbinding, by simpa using hother.symm⟩
  · exact h other ty hother

/-- What is on record says of a call what the call is annotated with. -/
lemma Recorded.callType_eq {returns : NameMap Ty} (h : Recorded p returns) {scope : ScopeId}
    {note : Note} {callee : Expr} {args : List Expr}
    (hcall : p.Annotated scope (.call note callee args)) {name : String}
    (hcallee : callee.ident? = some name) :
    callType ⟨p.symbols, returns⟩ scope name note.ty = note.ty := by
  rw [callType]
  split
  · next binding hlookup =>
      cases hty : returns.find? name with
      | none => rfl
      | some ty =>
          obtain ⟨hname, global, hglobal, rfl⟩ := h name ty hty
          have hfunction : (p.symbols.functionBinding? scope name).isSome = true := by
            simp [SymbolTable.functionBinding?, hlookup, Binding.fn?]
          exact (hcall name hcallee hfunction hname global hglobal).symm
  · rfl

/-- **Any two records answer alike** at the calls of the program. -/
lemma Recorded.agree {returns returns' : NameMap Ty} (h : Recorded p returns)
    (h' : Recorded p returns') (hcalls : p.CallsAnnotated) {site : ScopeId × Expr}
    (hsite : site ∈ p.callSites) : Agree p.symbols returns returns' site.1 site.2 := by
  have annotated := hcalls site hsite
  rw [Agree]
  cases hcall : site.2 with
  | call note callee args =>
      rw [hcall] at annotated
      cases hcallee : callee.ident? with
      | none => simp [callTy?, hcallee]
      | some name =>
          simp only [callTy?, hcallee, Option.map_some]
          rw [h'.callType_eq annotated hcallee, h.callType_eq annotated hcallee]
  | _ => rfl

/-! ## Lowered alone -/

/-- The method of a function that is lowered before all others. -/
def LoweredAlone (config : Config) (p : CheckedProgram) (name : String) (m : Method) : Prop :=
  ∃ shared, lowerFunction config p {} name = .ok (m, shared)

/-- The constructor, if the entry unit is lowered before all functions. -/
def EntryAlone (config : Config) (p : CheckedProgram) (m : Method) : Prop :=
  ∃ shared, lowerEntry config p {} = .ok (m, shared)

/-- A method with all its labels raised by some number. -/
def Raised (m m' : Method) : Prop := ∃ k, m' = m.rename (· + k)

lemma LoweredAlone.unique {name : String} {m m' : Method} (h : LoweredAlone config p name m)
    (h' : LoweredAlone config p name m') : m = m' := by
  obtain ⟨shared, h⟩ := h
  obtain ⟨shared', h'⟩ := h'
  rw [h, Except.ok.injEq, Prod.mk.injEq] at h'
  exact h'.1

lemma EntryAlone.unique {m m' : Method} (h : EntryAlone config p m) (h' : EntryAlone config p m') :
    m = m' := by
  obtain ⟨shared, h⟩ := h
  obtain ⟨shared', h'⟩ := h'
  rw [h, Except.ok.injEq, Prod.mk.injEq] at h'
  exact h'.1

lemma LoweredAlone.name_eq {name : String} {m : Method} (h : LoweredAlone config p name m) :
    m.name = name := by
  obtain ⟨shared, h⟩ := h
  exact (lowerFunction_ok_iff.1 h).name_eq

variable {shared shared' : Shared} {name : String} {m : Method}

/-- The method of a function, wherever the function is lowered: as it is lowered alone, with its
labels raised. -/
def Placed (config : Config) (p : CheckedProgram) (name : String) (m : Method) : Prop :=
  ∃ own, LoweredAlone config p name own ∧ Raised own m

lemma Placed.name_eq (h : Placed config p name m) : m.name = name := by
  obtain ⟨own, hown, k, rfl⟩ := h
  exact hown.name_eq

/-- A function lowered anywhere is lowered alone, and its labels are raised. -/
lemma FunctionCode.alone (h : FunctionCode config p shared name m shared')
    (hshared : Recorded p shared.returns) (hcalls : p.CallsAnnotated) (hname : name ∈ p.reachable) :
    Placed config p name m ∧ Recorded p shared'.returns := by
  cases h with
  | mk hbinding hdecl hscope hslots hbody =>
      have hafter := hshared.insert hname hbinding
      obtain ⟨own, issued, hown, rfl⟩ := hbody.alone fun site hsite =>
        hafter.agree (recorded_empty.insert hname hbinding) hcalls
          (CheckedProgram.mem_callSites_of_function hname hbinding hdecl hsite)
      refine ⟨⟨_, ⟨_, lowerFunction_ok_iff.2 (.mk hbinding hdecl hscope hslots hown)⟩, ?_⟩, hafter⟩
      exact ⟨shared.labels.issued, rfl⟩

/-- A function that can be lowered alone can be lowered anywhere. -/
lemma LoweredAlone.exists_functionCode (h : LoweredAlone config p name m)
    (hshared : Recorded p shared.returns) (hcalls : p.CallsAnnotated) (hname : name ∈ p.reachable) :
    ∃ m' shared', FunctionCode config p shared name m' shared' := by
  obtain ⟨shared', h⟩ := h
  cases lowerFunction_ok_iff.1 h with
  | @mk binding _ _ _ _ hbinding hdecl hscope hslots hbody =>
      have hafter := hshared.insert hname hbinding
      have raised := hbody.raised
        { shared with returns := shared.returns.insert name binding.returnType }
        fun site hsite => (recorded_empty.insert hname hbinding).agree hafter hcalls
          (CheckedProgram.mem_callSites_of_function hname hbinding hdecl hsite)
      exact ⟨_, _, .mk hbinding hdecl hscope hslots raised⟩

/-- **The methods of functions are those lowered alone**, with labels raised. -/
lemma FunctionsCode.alone {names : List String} {methods : List Method}
    (h : FunctionsCode config p shared names methods shared') (hshared : Recorded p shared.returns)
    (hcalls : p.CallsAnnotated) (hnames : ∀ name ∈ names, name ∈ p.reachable) :
    List.Forall₂ (Placed config p) names methods ∧ Recorded p shared'.returns := by
  induction h with
  | nil => exact ⟨.nil, hshared⟩
  | cons hfirst _ ih =>
      obtain ⟨hown, hmiddle⟩ := hfirst.alone hshared hcalls (hnames _ List.mem_cons_self)
      obtain ⟨hrest, hlast⟩ := ih hmiddle fun name hname =>
        hnames name (List.mem_cons_of_mem _ hname)
      exact ⟨.cons hown hrest, hlast⟩

/-- Functions that can be lowered alone can be lowered in any order. -/
lemma exists_lowered {names : List String} (hshared : Recorded p shared.returns)
    (hcalls : p.CallsAnnotated) (hnames : ∀ name ∈ names, name ∈ p.reachable)
    (h : ∀ name ∈ names, ∃ m, LoweredAlone config p name m) :
    ∃ methods shared', FunctionsCode config p shared names methods shared' := by
  induction names generalizing shared with
  | nil => exact ⟨[], shared, .nil⟩
  | cons name names ih =>
      have hname := hnames name List.mem_cons_self
      obtain ⟨own, hown⟩ := h name List.mem_cons_self
      obtain ⟨m, middle, hfirst⟩ := hown.exists_functionCode hshared hcalls hname
      obtain ⟨-, hmiddle⟩ := hfirst.alone hshared hcalls hname
      obtain ⟨methods, last, hrest⟩ := ih hmiddle
        (fun name hname => hnames name (List.mem_cons_of_mem _ hname))
        (fun name hname => h name (List.mem_cons_of_mem _ hname))
      exact ⟨m :: methods, last, .cons hfirst hrest⟩

/-! ## The entry unit -/

section

variable {code : Code} {issued : Nat}

lemma rename_entryMethod (config : Config) (f : Nat → Nat) (code : Code) :
    (entryMethod config code).rename f = entryMethod config (code.rename f) := by
  simp [entryMethod, method, Method.rename, Code.rename, Instruction.rename, Instruction.construct]

/-- The entry unit lowered behind all functions is lowered alone, and its labels are raised. -/
lemma exists_entryAlone (config : Config) (hcalls : p.CallsAnnotated)
    (hshared : Recorded p shared.returns)
    (h : BodyCode p.symbols shared .empty p.program.main.body
      (p.symbols.enter .global (some p.program.main.scope)) .void code issued) :
    ∃ own, EntryAlone config p own ∧ Raised own (entryMethod config code) := by
  obtain ⟨own, issued', hown, rfl⟩ := h.alone fun site hsite =>
    hshared.agree recorded_empty hcalls (CheckedProgram.mem_callSites_of_entry hsite)
  refine ⟨entryMethod config own, ⟨_, lowerEntry_ok_iff.2 ⟨own, issued', hown, rfl, rfl⟩⟩, ?_⟩
  exact ⟨shared.labels.issued, (rename_entryMethod config _ own).symm⟩

/-- An entry unit that can be lowered alone can be lowered behind any functions. -/
lemma EntryAlone.exists_bodyCode (h : EntryAlone config p m) (hcalls : p.CallsAnnotated)
    (hshared : Recorded p shared.returns) :
    ∃ code issued, BodyCode p.symbols shared .empty p.program.main.body
      (p.symbols.enter .global (some p.program.main.scope)) .void code issued := by
  obtain ⟨shared', h⟩ := h
  obtain ⟨own, issued, hown, -, -⟩ := lowerEntry_ok_iff.1 h
  exact ⟨_, _, hown.raised shared fun site hsite =>
    recorded_empty.agree hshared hcalls (CheckedProgram.mem_callSites_of_entry hsite)⟩

end

/-! ## Assembled classes -/

/-- The first method of a name, where methods stand in the order of names. -/
lemma find?_of_forall₂ {R : String → Method → Prop} (hR : ∀ {name m}, R name m → m.name = name)
    {names : List String} {methods : List Method} (h : List.Forall₂ R names methods)
    (name : String) :
    (name ∈ names ∧ ∃ m, methods.find? (·.name == name) = some m ∧ R name m) ∨
      (name ∉ names ∧ methods.find? (·.name == name) = none) := by
  induction h with
  | nil => exact .inr ⟨List.not_mem_nil, rfl⟩
  | @cons first m names methods hfirst _ ih =>
      by_cases same : first = name
      · subst same
        exact .inl ⟨List.mem_cons_self, m, by simp [hR hfirst], hfirst⟩
      · simp only [List.find?_cons, hR hfirst, beq_eq_false_iff_ne.2 same, List.mem_cons,
          Ne.symm same, false_or]
        exact ih

/-- **A program assembles if all of it can be lowered alone.** -/
lemma assembles_iff (hcalls : p.CallsAnnotated) :
    (∃ result, assemble p config = .ok result) ↔ p.symbols.validate = .ok () ∧
      (∀ name ∈ p.reachable, ∃ m, LoweredAlone config p name m) ∧ ∃ m, EntryAlone config p m := by
  constructor
  · rintro ⟨⟨c, issued⟩, h⟩
    obtain ⟨hvalid, functions, shared, code, hfunctions, hbody, -⟩ := assemble_ok_iff.1 h
    obtain ⟨hmethods, hshared⟩ := hfunctions.alone recorded_empty hcalls fun _ hname => hname
    obtain ⟨own, hown, -⟩ := exists_entryAlone config hcalls hshared hbody
    refine ⟨hvalid, ?_, own, hown⟩
    intro name hname
    rcases find?_of_forall₂ Placed.name_eq hmethods name with ⟨-, m, -, own, hown, -⟩ | ⟨hnot, -⟩
    · exact ⟨own, hown⟩
    · exact absurd hname hnot
  · rintro ⟨hvalid, halone, own, hown⟩
    obtain ⟨functions, shared, hfunctions⟩ :=
      exists_lowered recorded_empty hcalls (fun _ hname => hname) halone
    obtain ⟨-, hshared⟩ := hfunctions.alone recorded_empty hcalls fun _ hname => hname
    obtain ⟨code, issued, hbody⟩ := hown.exists_bodyCode hcalls hshared
    exact ⟨_, assemble_ok_iff.2 ⟨hvalid, functions, shared, code, hfunctions, hbody, rfl⟩⟩

/-- The class of an entry point, functions and a constructor. -/
def classOf (config : Config) (functions : List Method) (entry : Method) : ClassFile :=
  { name := config.className, superName := ClassName.object
    methods := entryPoint config :: (functions ++ [entry]) }

lemma renamed_entryPoint (config : Config) :
    (entryPoint config).Renamed (entryPoint config) := by
  refine ⟨id, Function.injective_id, ⟨⟨[], rfl⟩, ?_⟩, (Method.rename_id _).symm⟩
  intro i hi l hl
  simp only [entryPoint, method, List.mem_toArray, List.mem_cons, List.not_mem_nil, or_false] at hi
  rcases hi with rfl | rfl | rfl <;> simp [Instruction.target?] at hl

/-- A class of renamed methods is a renamed class. -/
lemma renamed_classOf {functions functions' : List Method} {entry entry' : Method}
    (hfunctions : ∀ name, Option.Rel Method.Renamed (functions.find? (·.name == name))
      (functions'.find? (·.name == name)))
    (hentry : entry.Renamed entry') :
    (classOf config functions entry).Renamed (classOf config functions' entry') where
  name := rfl
  entry := .some (renamed_entryPoint config)
  methods name := by
    have hname : entry'.name = entry.name := by
      obtain ⟨f, -, -, rfl⟩ := hentry
      rfl
    simp only [ClassFile.method?, classOf, List.find?_cons]
    split
    · exact .some (renamed_entryPoint config)
    · have found := hfunctions name
      rw [List.find?_append, List.find?_append]
      generalize functions.find? _ = x at found
      generalize functions'.find? _ = y at found
      cases found with
      | some h => exact .some h
      | none =>
          simp only [Option.none_or, List.find?_cons, List.find?_nil, hname]
          split
          · exact .some hentry
          · exact .none

lemma Balanced.closed {a b d e : Nat} {code : Code} (h : Balanced none a b d code.toList e) :
    code.Closed where
  located := h.exists_labelTable
  targets i hi l hl := by simpa using h.mem_of_target (by simpa using hi) hl

/-- A method that is raised is renamed. -/
lemma Raised.renamed {own : Method} (h : Raised own m) (hclosed : own.code.Closed) :
    own.Renamed m := by
  obtain ⟨k, rfl⟩ := h
  exact ⟨(· + k), fun _ _ h => Nat.add_right_cancel h, hclosed, rfl⟩

lemma LoweredAlone.closed (h : LoweredAlone config p name m) : m.code.Closed := by
  obtain ⟨shared, h⟩ := h
  exact (lowerFunction_ok_iff.1 h).balanced.closed

lemma EntryAlone.closed (h : EntryAlone config p m) : m.code.Closed := by
  obtain ⟨shared, h⟩ := h
  obtain ⟨code, issued, hcode, rfl, -⟩ := lowerEntry_ok_iff.1 h
  exact (hcode.balanced_entryMethod config).closed

/-- **An assembled class runs as one that is put together from methods lowered alone**, in any
order. -/
lemma renamed_of_placed {names names' : List String} {owns functions : List Method}
    {own entry : Method} (hnames : ∀ name, name ∈ names ↔ name ∈ names')
    (howns : List.Forall₂ (LoweredAlone config p) names owns)
    (hfunctions : List.Forall₂ (Placed config p) names' functions)
    (hown : EntryAlone config p own) (hentry : Raised own entry) :
    (classOf config owns own).Renamed (classOf config functions entry) := by
  refine renamed_classOf ?_ (hentry.renamed hown.closed)
  intro name
  rcases find?_of_forall₂ LoweredAlone.name_eq howns name with ⟨hin, m, hm, halone⟩ | ⟨hnot, hm⟩ <;>
    rcases find?_of_forall₂ Placed.name_eq hfunctions name with
      ⟨hin', m', hm', m'', halone', hraised⟩ | ⟨hnot', hm'⟩
  · rw [hm, hm']
    obtain rfl := halone.unique halone'
    exact .some (hraised.renamed halone.closed)
  · exact absurd ((hnames name).1 hin) hnot'
  · exact absurd ((hnames name).2 hin') hnot
  · rw [hm, hm']
    exact .none

/-! ## Two orders -/

/-- **Two methods with the same header and the same code**, but for one number that all labels of
one of them are raised by. -/
def Shifted (m m' : Method) : Prop :=
  ∃ k, m' = m.rename (· + k) ∨ m = m'.rename (· + k)

lemma Raised.shifted {own m' : Method} (h : Raised own m) (h' : Raised own m') : Shifted m m' := by
  have raised : ∀ {j k : Nat}, j ≤ k →
      own.rename (· + k) = (own.rename (· + j)).rename (· + (k - j)) := by
    intro j k hle
    have composed : (· + (k - j)) ∘ (· + j) = ((· + k) : Nat → Nat) := by
      funext n
      show n + j + (k - j) = n + k
      omega
    rw [Method.rename_rename, composed]
  obtain ⟨j, rfl⟩ := h
  obtain ⟨k, rfl⟩ := h'
  rcases Nat.le_total j k with hle | hle
  · exact ⟨k - j, .inl (raised hle)⟩
  · exact ⟨j - k, .inr (raised hle)⟩

/-- The methods of the same functions in two classes are shifted. -/
lemma forall₂_shifted {names : List String} {methods methods' : List Method}
    (h : List.Forall₂ (Placed config p) names methods)
    (h' : List.Forall₂ (Placed config p) names methods') :
    List.Forall₂ Shifted methods methods' := by
  induction h generalizing methods' with
  | nil =>
      cases h'
      exact .nil
  | cons hfirst _ ih =>
      cases h' with
      | cons hfirst' hrest' =>
          obtain ⟨own, hown, hraised⟩ := hfirst
          obtain ⟨own', hown', hraised'⟩ := hfirst'
          obtain rfl := hown.unique hown'
          exact .cons (hraised.shifted hraised') (ih hrest')

/-- What an assembled class is made of. -/
lemma exists_placed {c : ClassFile} {issued : Nat} (h : assemble p config = .ok (c, issued))
    (hcalls : p.CallsAnnotated) :
    ∃ functions own entry, c = classOf config functions entry ∧
      List.Forall₂ (Placed config p) p.reachable functions ∧ EntryAlone config p own ∧
      Raised own entry := by
  obtain ⟨-, functions, shared, code, hfunctions, hbody, rfl⟩ := assemble_ok_iff.1 h
  obtain ⟨hmethods, hshared⟩ := hfunctions.alone recorded_empty hcalls fun _ hname => hname
  obtain ⟨own, hown, hraised⟩ := exists_entryAlone config hcalls hshared hbody
  exact ⟨functions, own, entryMethod config code, rfl, hmethods, hown, hraised⟩

/-- The methods that functions are lowered to alone, where they are lowered at all. -/
lemma exists_alone {names : List String} {methods : List Method}
    (h : List.Forall₂ (Placed config p) names methods) :
    ∃ owns, List.Forall₂ (LoweredAlone config p) names owns := by
  induction h with
  | nil => exact ⟨[], .nil⟩
  | cons hfirst _ ih =>
      obtain ⟨own, hown, -⟩ := hfirst
      obtain ⟨owns, howns⟩ := ih
      exact ⟨own :: owns, .cons hown howns⟩

open Session in
/-- **The order of emission does not matter.**  Two programs that differ in it only, and whose calls
are annotated with what functions return, both assemble or neither does.  If they do, their methods
correspond one to one with the same headers and with code that is the same but for a shift of its
labels, and whatever is asked of a session gets the same result from both classes, in the same world
and after the same number of steps. -/
theorem assemble_reordered (p : CheckedProgram) (config : Config) (hcalls : p.CallsAnnotated)
    {names : List String} (hperm : names.Perm p.reachable) :
    ((∃ result, assemble p config = .ok result) ↔
        ∃ result, assemble { p with reachable := names } config = .ok result) ∧
      ∀ c issued c' issued', assemble p config = .ok (c, issued) →
        assemble { p with reachable := names } config = .ok (c', issued') →
        (∃ methods, methods.Perm c'.methods ∧ List.Forall₂ Shifted c.methods methods) ∧
          ∀ (limit : Nat) (world : World) (steps : Nat) (request : Request),
            ending ((⟨c', limit, world, steps⟩ : Session).answer request) =
              ending ((⟨c, limit, world, steps⟩ : Session).answer request) := by
  have hcalls' := hcalls.perm hperm
  constructor
  · -- lowering alone does not look at the order
    rw [assembles_iff hcalls, assembles_iff hcalls']
    refine and_congr Iff.rfl (and_congr ?_ Iff.rfl)
    exact ⟨fun h name hname => h name (hperm.mem_iff.1 hname),
      fun h name hname => h name (hperm.mem_iff.2 hname)⟩
  · intro c issued c' issued' h h'
    obtain ⟨functions, own, entry, rfl, hfunctions, hown, hentry⟩ := exists_placed h hcalls
    obtain ⟨functions', own', entry', rfl, hfunctions', hown', hentry'⟩ := exists_placed h' hcalls'
    obtain rfl : own = own' := hown.unique hown'
    constructor
    · obtain ⟨methods, hmethods, hperm'⟩ := List.perm_comp_forall₂ hperm.symm hfunctions'
      have hshift : Shifted (entryPoint config) (entryPoint config) :=
        ⟨0, .inl (Method.rename_id _).symm⟩
      refine ⟨entryPoint config :: (methods ++ [entry']), (hperm'.append_right _).cons _, ?_⟩
      exact .cons hshift
        (List.rel_append (forall₂_shifted hfunctions hmethods)
        (.cons (hentry.shifted hentry') .nil))
    · intro limit world steps request
      obtain ⟨owns, howns⟩ := exists_alone hfunctions
      have run := ending_renamed (renamed_of_placed (fun _ => Iff.rfl) howns hfunctions hown hentry)
        limit world steps request
      have run' := ending_renamed (renamed_of_placed (fun _ => hperm.mem_iff.symm) howns hfunctions'
        hown hentry') limit world steps request
      rw [run, run']

/-- A program with two functions that call each other, each of them with a conditional. -/
def relayProgram : CheckedProgram :=
  let int : Note := { ty := .int, span := default }
  let n : Expr := .ident int "n"
  let positive : Expr := .binary { ty := .bool, span := default } .gt n (.int int 0)
  let pass (name : String) : Stmt :=
    .ret default (some (.call int (.ident int name) [.binary int .sub n (.int int 1)]))
  let body (name : String) : List Stmt :=
    [.branch default positive [pass name] [.ret default (some n)] none]
  ({} : ProgramDraft).function "left" [⟨"n", .int⟩] .int (body "right")
    |>.function "right" [⟨"n", .int⟩] .int (body "left")
    |>.finish [.put default (.call int (.ident int "left") [.int int 3])]

open Session in
theorem assemble_reordered_relayProgram :
    relayProgram.CallsAnnotated ∧ ["right", "left"].Perm relayProgram.reachable ∧
      ∃ c issued c' issued', assemble relayProgram {} = .ok (c, issued) ∧
        assemble { relayProgram with reachable := ["right", "left"] } {} = .ok (c', issued') ∧
        c'.methods ≠ c.methods ∧
        (∃ methods, methods.Perm c'.methods ∧ List.Forall₂ Shifted c.methods methods) ∧
        ∀ (limit : Nat) (world : World) (steps : Nat) (request : Request),
          ending ((⟨c', limit, world, steps⟩ : Session).answer request) =
            ending ((⟨c, limit, world, steps⟩ : Session).answer request) := by
  have annotated : relayProgram.CallsAnnotated := by decide +kernel
  have swapped : ["right", "left"].Perm relayProgram.reachable := .swap "left" "right" []
  have names : (assemble relayProgram {}).toOption.map (fun r => r.1.methods.map Method.name) =
      some ["main", "left", "right", "<init>"] := by decide +kernel
  have names' : (assemble { relayProgram with reachable := ["right", "left"] } {}).toOption.map
      (fun r => r.1.methods.map Method.name) = some ["main", "right", "left", "<init>"] := by
    decide +kernel
  obtain ⟨-, same⟩ := assemble_reordered relayProgram {} annotated swapped
  cases h : assemble relayProgram {} with
  | error e => simp [h, Except.toOption] at names
  | ok r =>
      cases h' : assemble { relayProgram with reachable := ["right", "left"] } {} with
      | error e => simp [h', Except.toOption] at names'
      | ok r' =>
          have listed : r.1.methods.map Method.name = ["main", "left", "right", "<init>"] := by
            simpa [h, Except.toOption] using names
          have listed' : r'.1.methods.map Method.name = ["main", "right", "left", "<init>"] := by
            simpa [h', Except.toOption] using names'
          obtain ⟨hmethods, hruns⟩ := same r.1 r.2 r'.1 r'.2 h h'
          refine ⟨annotated, swapped, r.1, r.2, r'.1, r'.2, rfl, rfl, ?_, hmethods, hruns⟩
          intro equal
          rw [equal, listed] at listed'
          simp at listed'

end Lowering

end StackBackend
