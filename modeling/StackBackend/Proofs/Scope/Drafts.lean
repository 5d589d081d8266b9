import StackBackend.Proofs.Lowering.Laws
import StackBackend.Proofs.Scope.Ancestors
import StackBackend.Tree.Build
import Mathlib.Data.List.Induction
import Mathlib.Tactic.Set

/-!
# Drafted programs

A draft takes declarations one by one and fills in a symbol table; the entry unit comes last.  Here
it is shown what the table holds in the end, whatever was declared, and that lowering finds in it
and in the tree every name that it looks up.

**A table is seen through its links and its look-ups.**  `links` are the parents of all scopes in
order, and a building step is described by what it does to the links and to `lookupLocal`; how the
bindings of a scope are kept does not matter.

**First come, first bound.**  `BindsNew t id vars t'` says that `t'` is `t` with the variables of a
list bound in one scope, except those whose names were bound there already.  Parameters with
distinct names are bound that way, and so is what a body assigns to at any depth
(`Stmt.assignedIn`), which makes the scope of a function its parameters followed by the targets of
its assignments, the first entry of a name counting.

**One declaration, then all.**  `Records t ds` is what a table holds after the declarations `ds`;
`Records.declare` is the step.
-/

namespace StackBackend

/-! ## What a body assigns to -/

mutual

/-- The variables that a statement assigns to, each with the type annotated there, in textual order.
-/
def Stmt.assigned : Stmt → List (String × Ty)
  | .assign _ target _ _ _ =>
    match target.ident? with
    | some name => [(name, target.ty)]
    | none => []
  | .branch _ _ thenBody elseBody _ => Stmt.assignedIn thenBody ++ Stmt.assignedIn elseBody
  | .loop _ body _ => Stmt.assignedIn body
  | _ => []

/-- The variables that a block assigns to, in textual order. -/
def Stmt.assignedIn : List Stmt → List (String × Ty)
  | [] => []
  | stmt :: rest => stmt.assigned ++ Stmt.assignedIn rest

end

/-- What a scope binds a name to, given its variables: the first of that name. -/
def variableOf (vars : List (String × Ty)) (name : String) : Option Binding :=
  (vars.lookup name).map fun ty => .var ⟨name, ty⟩

lemma variableOf_append (xs ys : List (String × Ty)) (name : String) :
    variableOf (xs ++ ys) name = (variableOf xs name).or (variableOf ys name) := by
  rw [variableOf, List.lookup_append, Option.map_or]
  rfl

lemma ScopeId.toNat_ofNat {n : Nat} (h : n < UInt32.size) : (ScopeId.ofNat n).toNat = n :=
  UInt32.toNat_ofNat_of_lt h

lemma ScopeId.toNat_inj {a b : ScopeId} : a.toNat = b.toNat ↔ a = b := by
  constructor
  · intro h
    rw [← SymbolTable.ofNat_toNat a, h, SymbolTable.ofNat_toNat]
  · rintro rfl
    rfl

lemma ScopeId.ofNat_ne_global {n : Nat} (h : n < UInt32.size) (hn : n ≠ 0) :
    ScopeId.ofNat n ≠ .global := by
  rw [Ne, ← ScopeId.toNat_inj, ScopeId.toNat_ofNat h]
  exact hn

namespace SymbolTable

/-! ## Building steps, seen through links and look-ups -/

/-- The links of all scopes, in order. -/
def links (t : SymbolTable) : List (Option ScopeId) := t.scopes.map (·.parent)

variable {t t' : SymbolTable} {id : ScopeId}

@[simp] lemma length_links (t : SymbolTable) : t.links.length = t.size := by
  simp [links, size]

lemma size_of_links (h : t'.links = t.links) : t'.size = t.size := by
  rw [← length_links, h, length_links]

@[simp] lemma links_define (t : SymbolTable) (id : ScopeId) (b : Binding) :
    (t.define id b).links = t.links := by
  refine List.ext_getElem? fun i => ?_
  simp only [links, define, List.getElem?_map, List.getElem?_modify]
  cases t.scopes[i]? with
  | none => rfl
  | some scope =>
      by_cases h : id.toNat = i <;> simp [h]

/-- **Binding a name changes the look-up of that name in that scope**, and no other. -/
lemma lookupLocal_define (t : SymbolTable) (id other : ScopeId) (b : Binding) (name : String) :
    (t.define id b).lookupLocal other name =
      if other = id ∧ name = b.name ∧ t.has id then some b else t.lookupLocal other name := by
  simp only [lookupLocal, scope?, define, has, List.getElem?_modify]
  by_cases same : other = id
  · subst same
    rcases Option.eq_none_or_eq_some t.scopes[other.toNat]? with hscope | ⟨scope, hscope⟩
    · simp [hscope]
    · by_cases hit : name = b.name <;> simp [hscope, NameMap.find?_insert, hit]
  · have apart : id.toNat ≠ other.toNat := fun h => same (ScopeId.toNat_inj.1 h.symm)
    rcases Option.eq_none_or_eq_some t.scopes[other.toNat]? with hscope | ⟨scope, hscope⟩
    · simp [hscope, same]
    · simp [hscope, same, apart]

@[simp] lemma links_addScope (t : SymbolTable) (parent : ScopeId) :
    (t.addScope parent).2.links = t.links ++ [some parent] := by
  simp [addScope, links]

@[simp] lemma size_addScope (t : SymbolTable) (parent : ScopeId) :
    (t.addScope parent).2.size = t.size + 1 := by
  rw [← length_links, links_addScope, List.length_append, length_links, List.length_singleton]

/-- A new scope binds nothing. -/
@[simp] lemma lookupLocal_addScope (t : SymbolTable) (parent id : ScopeId) (name : String) :
    (t.addScope parent).2.lookupLocal id name = t.lookupLocal id name := by
  simp only [lookupLocal, scope?, addScope]
  rcases Nat.lt_trichotomy id.toNat t.scopes.length with h | h | h
  · rw [List.getElem?_append_left h]
  · simp [h]
  · rw [List.getElem?_eq_none (by simp; omega), List.getElem?_eq_none (by omega)]

lemma lookupLocal_of_size_le (h : t.size ≤ id.toNat) (name : String) :
    t.lookupLocal id name = none := by
  rw [lookupLocal, scope?, List.getElem?_eq_none h]

/-! ## Variables bound in one scope -/

/-- **`t'` is `t` with variables bound in one scope**, except those whose names were bound there
already; of two variables of one name the first counts. -/
structure BindsNew (t : SymbolTable) (id : ScopeId) (vars : List (String × Ty))
    (t' : SymbolTable) : Prop where
  links : t'.links = t.links
  own : ∀ name, t'.lookupLocal id name = (t.lookupLocal id name).or (variableOf vars name)
  other : ∀ id' name, id' ≠ id → t'.lookupLocal id' name = t.lookupLocal id' name

namespace BindsNew

lemma refl (t : SymbolTable) (id : ScopeId) : BindsNew t id [] t where
  links := rfl
  own name := by simp [variableOf]
  other _ _ _ := rfl

lemma trans {t'' : SymbolTable} {xs ys : List (String × Ty)} (h : BindsNew t id xs t')
    (h' : BindsNew t' id ys t'') : BindsNew t id (xs ++ ys) t'' where
  links := h'.links.trans h.links
  own name := by rw [h'.own, h.own, variableOf_append, Option.or_assoc]
  other id' name hid := by rw [h'.other id' name hid, h.other id' name hid]

lemma has (h : BindsNew t id xs t') (hid : t.has id = true) : t'.has id = true := by
  rw [has_iff] at hid ⊢
  rwa [size_of_links h.links]

/-- A name that is bound stays as it is. -/
lemma of_bound {name : String} (ty : Ty) (h : (t.lookupLocal id name).isSome = true) :
    BindsNew t id [(name, ty)] t where
  links := rfl
  own other := by
    obtain ⟨b, hb⟩ := Option.isSome_iff_exists.1 h
    by_cases same : other = name
    · simp [same, hb]
    · simp [variableOf, List.lookup_cons, beq_eq_false_iff_ne.2 same]
  other _ _ _ := rfl

/-- A name that is not bound is bound by a definition. -/
lemma of_defineVariable {name : String} (ty : Ty) (hid : t.has id = true)
    (h : t.lookupLocal id name = none) :
    BindsNew t id [(name, ty)] (t.defineVariable id name ty) where
  links := links_define t id _
  own other := by
    rw [defineVariable, lookupLocal_define]
    by_cases same : other = name
    · simp [Binding.name, same, hid, h, variableOf]
    · simp [Binding.name, same, variableOf, List.lookup_cons, beq_eq_false_iff_ne.2 same]
  other id' other hid' := by simp [defineVariable, lookupLocal_define, hid']

end BindsNew

/-- Parameters with distinct names are bound in order. -/
lemma bindsNew_defineParams (hid : t.has id = true) {params : List Param}
    (hdistinct : (params.map (·.name)).Nodup)
    (hnew : ∀ p ∈ params, t.lookupLocal id p.name = none) :
    BindsNew t id (params.map fun p => (p.name, p.ty)) (t.defineParams id params) := by
  induction params generalizing t with
  | nil => exact .refl t id
  | cons p rest ih =>
      rw [List.map_cons, List.nodup_cons] at hdistinct
      have first := BindsNew.of_defineVariable p.ty hid (hnew p List.mem_cons_self)
      refine first.trans (ih (first.has hid) hdistinct.2 ?_)
      intro q hq
      have apart : q.name ≠ p.name := by
        intro same
        exact hdistinct.1 (same ▸ List.mem_map_of_mem hq)
      rw [first.own, hnew q (List.mem_cons_of_mem _ hq)]
      simp [variableOf, List.lookup_cons, beq_eq_false_iff_ne.2 apart]

mutual

/-- What a statement assigns to is bound where it was not. -/
theorem bindsNew_declareLocal {t : SymbolTable} {id : ScopeId} (hid : t.has id = true)
    (stmt : Stmt) :
    BindsNew t id stmt.assigned (t.declareLocal id stmt) := by
  match stmt with
  | .assign _ target _ _ _ =>
      rw [declareLocal, Stmt.assigned]
      cases target.ident? with
      | none => exact .refl t id
      | some name =>
          simp only
          split
          · next bound => exact .of_bound target.ty bound
          · next unbound => exact .of_defineVariable target.ty hid (by simpa using unbound)
  | .branch _ _ thenBody elseBody _ =>
      rw [declareLocal, Stmt.assigned]
      have first := bindsNew_declareLocals hid thenBody
      exact first.trans (bindsNew_declareLocals (first.has hid) elseBody)
  | .loop _ body _ =>
      rw [declareLocal, Stmt.assigned]
      exact bindsNew_declareLocals hid body
  | .exitLoop _ | .nextLoop _ | .ret _ _ | .put _ _ | .eval _ _ => exact .refl t id

theorem bindsNew_declareLocals {t : SymbolTable} {id : ScopeId} (hid : t.has id = true)
    (body : List Stmt) :
    BindsNew t id (Stmt.assignedIn body) (t.declareLocals id body) := by
  match body with
  | [] => exact .refl t id
  | stmt :: rest =>
      rw [declareLocals, Stmt.assignedIn]
      have first := bindsNew_declareLocal hid stmt
      exact first.trans (bindsNew_declareLocals (first.has hid) rest)

end

/-! ## Links to earlier scopes -/

lemma firstBadParent?_of_earlier {scopes : List Scope} {place : Nat}
    (h : ∀ i scope parent, scopes[i]? = some scope → scope.parent = some parent →
      parent.index < (ScopeId.ofNat (place + i)).index) :
    firstBadParent? place scopes = none := by
  induction scopes generalizing place with
  | nil => rfl
  | cons first rest ih =>
      have later : firstBadParent? (place + 1) rest = none := by
        refine ih fun i scope parent hi hparent => ?_
        rw [Nat.add_right_comm, Nat.add_assoc]
        exact h (i + 1) scope parent (by simpa using hi) hparent
      rw [firstBadParent?]
      split
      · next parent hparent =>
          have earlier : parent.index < (ScopeId.ofNat place).index := h 0 first parent rfl hparent
          rw [if_neg (UInt32.not_le.2 earlier)]
          exact later
      · exact later

/-- A table in which every scope but the global one links to the global one is valid. -/
lemma validate_of_links {n : Nat} (h : t.links = none :: List.replicate n (some .global))
    (room : n < UInt32.size) : t.validate = .ok () := by
  have earlier : firstBadParent? 0 t.scopes = none := by
    refine firstBadParent?_of_earlier fun i scope parent hi hparent => ?_
    have hlink : t.links[i]? = some (some parent) := by
      simp [links, hi, hparent]
    rw [h] at hlink
    cases i with
    | zero => simp at hlink
    | succ i =>
        obtain ⟨hlt, rfl⟩ : i < n ∧ ScopeId.global = parent := by
          simpa [List.getElem?_replicate] using hlink
        rw [UInt32.lt_iff_toNat_lt]
        have : (ScopeId.ofNat (0 + (i + 1))).toNat = 0 + (i + 1) :=
          ScopeId.toNat_ofNat (by omega)
        change ScopeId.global.toNat < (ScopeId.ofNat (0 + (i + 1))).toNat
        rw [this]
        change 0 < 0 + (i + 1)
        omega
  have nonempty : t.scopes.isEmpty = false := by
    cases hscopes : t.scopes with
    | nil => simp [links, hscopes] at h
    | cons _ _ => rfl
  rw [validate, nonempty, earlier]
  rfl

end SymbolTable

/-! ## Declarations -/

/-- A function as it is handed to a draft. -/
structure Declaration where
  name : String
  params : List Param
  ret : Ty
  body : List Stmt
  /-- Whether the function is to be emitted. -/
  emitted : Bool

namespace Declaration

/-- The variables of a function: its parameters, then what its body assigns to. -/
def locals (f : Declaration) : List (String × Ty) :=
  f.params.map (fun p => (p.name, p.ty)) ++ Stmt.assignedIn f.body

/-- What the name of a function with this scope is bound to. -/
def binding (f : Declaration) (scope : ScopeId) : FunctionBinding :=
  { name := f.name, argTypes := f.params.map (·.ty), returnType := f.ret, scope }

end Declaration

/-- **The last declaration of a name** is the one at place `i`. -/
def LastDeclared (ds : List Declaration) (name : String) (i : Nat) (f : Declaration) : Prop :=
  ds[i]? = some f ∧ f.name = name ∧ ∀ j g, i < j → ds[j]? = some g → g.name ≠ name

variable {ds : List Declaration} {f g : Declaration} {name : String} {i : Nat}

/-- One declaration more is the last of its own name and of no other. -/
lemma lastDeclared_append :
    LastDeclared (ds ++ [g]) name i f ↔
      (i = ds.length ∧ f = g ∧ g.name = name) ∨ (g.name ≠ name ∧ LastDeclared ds name i f) := by
  constructor
  · rintro ⟨hi, hname, hlast⟩
    rcases Nat.lt_trichotomy i ds.length with hlt | rfl | hlt
    · rw [List.getElem?_append_left hlt] at hi
      refine .inr ⟨hlast ds.length g hlt (by simp), hi, hname, ?_⟩
      intro j other hj hother
      have : j < ds.length := (List.getElem?_eq_some_iff.1 hother).1
      exact hlast j other hj (by rw [List.getElem?_append_left this, hother])
    · obtain rfl : g = f := by simpa using hi
      exact .inl ⟨rfl, rfl, hname⟩
    · rw [List.getElem?_eq_none (by simp; omega)] at hi
      simp at hi
  · rintro (⟨rfl, rfl, hname⟩ | ⟨hne, hi, hname, hlast⟩)
    · refine ⟨by simp, hname, ?_⟩
      intro j other hj hother
      rw [List.getElem?_eq_none (by simp; omega)] at hother
      simp at hother
    · have hlt : i < ds.length := (List.getElem?_eq_some_iff.1 hi).1
      refine ⟨by rw [List.getElem?_append_left hlt, hi], hname, ?_⟩
      intro j other hj hother
      rcases Nat.lt_trichotomy j ds.length with hjlt | rfl | hjlt
      · rw [List.getElem?_append_left hjlt] at hother
        exact hlast j other hj hother
      · obtain rfl : g = other := by simpa using hother
        exact hne
      · rw [List.getElem?_eq_none (by simp; omega)] at hother
        simp at hother

/-- A name that is declared has a last declaration. -/
lemma exists_lastDeclared (h : ∃ f ∈ ds, f.name = name) : ∃ i f, LastDeclared ds name i f := by
  induction ds using List.reverseRecOn with
  | nil => simp at h
  | append_singleton ds g ih =>
      by_cases same : g.name = name
      · exact ⟨ds.length, g, lastDeclared_append.2 (.inl ⟨rfl, rfl, same⟩)⟩
      · obtain ⟨f, hf, hname⟩ := h
        have earlier : f ∈ ds := by
          rcases List.mem_append.1 hf with hf | hf
          · exact hf
          · obtain rfl : f = g := by simpa using hf
            exact absurd hname same
        obtain ⟨i, f, hlast⟩ := ih ⟨f, earlier, hname⟩
        exact ⟨i, f, lastDeclared_append.2 (.inr ⟨same, hlast⟩)⟩

/-! ## One declaration -/

namespace ProgramDraft

/-- Hand a declaration to a draft. -/
def add (d : ProgramDraft) (f : Declaration) : ProgramDraft :=
  if f.emitted then d.function f.name f.params f.ret f.body
  else d.declare f.name f.params f.ret f.body

/-- The draft of some declarations, in order. -/
def ofDeclarations (ds : List Declaration) : ProgramDraft := ds.foldl add {}

lemma ofDeclarations_append (ds : List Declaration) (f : Declaration) :
    ofDeclarations (ds ++ [f]) = (ofDeclarations ds).add f := by
  simp [ofDeclarations]

lemma symbols_add (d : ProgramDraft) (f : Declaration) :
    (d.add f).symbols = (d.declare f.name f.params f.ret f.body).symbols := by
  rw [add]
  split <;> rfl

lemma functions_add (d : ProgramDraft) (f : Declaration) :
    (d.add f).functions =
    d.functions ++ [{ name := f.name, params := f.params, body := f.body }] := by
  rw [add]
  split <;> rfl

lemma mem_reachable_add {d : ProgramDraft} (h : name ∈ (d.add f).reachable) :
    name ∈ d.reachable ∨ name = f.name := by
  rw [add] at h
  split at h
  · simpa [function, declare] using h
  · exact .inl h

end ProgramDraft

namespace SymbolTable

/-- **What one declaration does to a table**: a new scope inside the global one holds the variables
of the function, and the global scope binds its name. -/
structure Declares (t : SymbolTable) (f : Declaration) (t' : SymbolTable) : Prop where
  links : t'.links = t.links ++ [some .global]
  own : ∀ name, t'.lookupLocal (.ofNat t.size) name = variableOf f.locals name
  global : ∀ name, t'.lookupLocal .global name =
    if name = f.name then some (.fn (f.binding (.ofNat t.size))) else t.lookupLocal .global name
  other : ∀ id name, id ≠ .global → id ≠ .ofNat t.size →
    t'.lookupLocal id name = t.lookupLocal id name

/-- The scope that is opened next is in the table from then on, and binds nothing. -/
lemma has_addScope {t : SymbolTable} (room : t.size < UInt32.size) :
    (t.addScope .global).2.has (.ofNat t.size) = true := by
  rw [has_iff, ScopeId.toNat_ofNat room, size_addScope]
  omega

lemma lookupLocal_next {t : SymbolTable} (room : t.size < UInt32.size) (name : String) :
    (t.addScope .global).2.lookupLocal (.ofNat t.size) name = none := by
  rw [lookupLocal_addScope]
  exact lookupLocal_of_size_le (Nat.le_of_eq (ScopeId.toNat_ofNat room).symm) name

lemma declares_declare (d : ProgramDraft) (f : Declaration) (hpos : 0 < d.symbols.size)
    (room : d.symbols.size < UInt32.size) (hdistinct : (f.params.map (·.name)).Nodup) :
    Declares d.symbols f (d.declare f.name f.params f.ret f.body).symbols := by
  -- the steps of a declaration: a scope, the parameters, the name, the variables of the body
  set scope := ScopeId.ofNat d.symbols.size with hscope
  have apart : scope ≠ .global := ScopeId.ofNat_ne_global room (by omega)
  have params := bindsNew_defineParams (has_addScope room) hdistinct
    fun p _ => lookupLocal_next room p.name
  set bound := (d.symbols.addScope .global).2.defineParams scope f.params
  have sized : bound.size = d.symbols.size + 1 := by
    rw [size_of_links params.links, size_addScope]
  have globals : bound.has .global = true := by
    rw [has_iff, sized]
    exact Nat.succ_pos _
  have named := lookupLocal_define bound .global
  set named' := bound.define .global (.fn (f.binding scope)) with hnamed
  have opened : named'.has scope = true := by
    rw [has_iff, hnamed, size_of_links (links_define ..), sized, hscope, ScopeId.toNat_ofNat room]
    omega
  have locals := bindsNew_declareLocals opened f.body
  change Declares d.symbols f (named'.declareLocals scope f.body)
  constructor
  · rw [locals.links, hnamed, links_define, params.links, links_addScope]
  · intro name
    rw [locals.own, hnamed, named, if_neg (by simp [apart]), params.own, lookupLocal_next room,
      Option.none_or, Declaration.locals, variableOf_append]
  · intro name
    rw [locals.other _ _ apart.symm, hnamed, named, params.other _ _ apart.symm,
      lookupLocal_addScope]
    simp [globals, Binding.name, Declaration.binding, ← hscope]
  · intro id name hglobal hid
    rw [locals.other _ _ hid, hnamed, named, if_neg (by simp [hglobal]), params.other _ _ hid,
      lookupLocal_addScope]

/-! ## All declarations -/

/-- **What a table holds after some declarations.** -/
structure Records (t : SymbolTable) (ds : List Declaration) : Prop where
  links : t.links = none :: List.replicate ds.length (some .global)
  global : ∀ name b, t.lookupLocal .global name = some b ↔
    ∃ i f, LastDeclared ds name i f ∧ b = .fn (f.binding (.ofNat (i + 1)))
  own : ∀ i f, ds[i]? = some f →
    ∀ name, t.lookupLocal (.ofNat (i + 1)) name = variableOf f.locals name

namespace Records

variable {t t' : SymbolTable}

lemma size (h : Records t ds) : t.size = ds.length + 1 := by
  rw [← length_links, h.links]
  simp

/-- The step: one declaration more is recorded, and the earlier ones stay. -/
lemma declare (h : Records t ds) (h' : Declares t f t') (room : ds.length + 1 < UInt32.size) :
    Records t' (ds ++ [f]) where
  links := by
    rw [h'.links, h.links, List.cons_append, List.length_append, List.length_singleton,
      List.replicate_succ']
  global name b := by
    rw [h'.global, h.size]
    by_cases same : f.name = name
    · rw [if_pos same.symm]
      constructor
      · intro hb
        refine ⟨ds.length, f, lastDeclared_append.2 (.inl ⟨rfl, rfl, same⟩), ?_⟩
        simpa [eq_comm] using hb
      · rintro ⟨i, g, hlast, rfl⟩
        rcases lastDeclared_append.1 hlast with ⟨rfl, rfl, -⟩ | ⟨hne, -⟩
        · rfl
        · exact absurd same hne
    · simp [lastDeclared_append, same, Ne.symm same, h.global]
  own i g hi name := by
    rcases Nat.lt_trichotomy i ds.length with hlt | rfl | hlt
    · rw [List.getElem?_append_left hlt] at hi
      rw [h'.other, h.own i g hi]
      · exact ScopeId.ofNat_ne_global (by omega) (by omega)
      · rw [h.size, Ne, ← ScopeId.toNat_inj, ScopeId.toNat_ofNat room,
          ScopeId.toNat_ofNat (by omega)]
        omega
    · obtain rfl : f = g := by simpa using hi
      rw [← h.size]
      exact h'.own name
    · rw [List.getElem?_eq_none (by simp; omega)] at hi
      simp at hi

end Records

lemma records_initial : Records .initial [] where
  links := rfl
  global name b := by
    simp [LastDeclared, initial, lookupLocal, scope?, ScopeId.global, ScopeId.toNat]
  own := by simp

/-- The run: all declarations are recorded. -/
lemma records_ofDeclarations (room : ds.length < UInt32.size)
    (hdistinct : ∀ f ∈ ds, (f.params.map (·.name)).Nodup) :
    Records (ProgramDraft.ofDeclarations ds).symbols ds := by
  induction ds using List.reverseRecOn with
  | nil => exact records_initial
  | append_singleton ds f ih =>
      rw [List.length_append, List.length_singleton] at room
      have before := ih (by omega) fun g hg => hdistinct g (List.mem_append_left _ hg)
      rw [ProgramDraft.ofDeclarations_append, ProgramDraft.symbols_add]
      have sized := before.size
      exact before.declare (declares_declare _ f (by omega) (by omega) (hdistinct f (by simp))) room

end SymbolTable

/-! ## Finished programs -/

namespace ProgramDraft

open SymbolTable

/-- The names to emit are declared. -/
lemma exists_of_mem_reachable (h : name ∈ (ofDeclarations ds).reachable) :
    ∃ f ∈ ds, f.name = name := by
  induction ds using List.reverseRecOn with
  | nil => simp [ofDeclarations] at h
  | append_singleton ds f ih =>
      rw [ofDeclarations_append] at h
      rcases mem_reachable_add h with h | rfl
      · obtain ⟨g, hg, hname⟩ := ih h
        exact ⟨g, List.mem_append_left _ hg, hname⟩
      · exact ⟨f, by simp, rfl⟩

/-- The tree has what was declared. -/
lemma exists_function? (body : List Stmt) (h : ∃ f ∈ ds, f.name = name) :
    ∃ decl, ((ofDeclarations ds).finish body).program.function? name = some decl := by
  have listed : (ofDeclarations ds).functions
      = ds.map fun f => { name := f.name, params := f.params, body := f.body } := by
    clear h
    induction ds using List.reverseRecOn with
    | nil => rfl
    | append_singleton ds f ih => simp [ofDeclarations_append, functions_add, ih]
  obtain ⟨f, hf, hname⟩ := h
  refine Option.isSome_iff_exists.1 (List.find?_isSome.2 ?_)
  refine ⟨{ name := f.name, params := f.params, body := f.body }, ?_, by simpa using hname⟩
  change _ ∈ (ofDeclarations ds).functions
  rw [listed]
  exact List.mem_map_of_mem hf

/-- **What a finished program holds**: the declarations, and last the scope of the entry unit. -/
structure Arranged (p : CheckedProgram) (ds : List Declaration) (body : List Stmt) : Prop where
  links : p.symbols.links = none :: List.replicate (ds.length + 1) (some .global)
  global : ∀ name b, p.symbols.lookupLocal .global name = some b ↔
    ∃ i f, LastDeclared ds name i f ∧ b = .fn (f.binding (.ofNat (i + 1)))
  own : ∀ i f, ds[i]? = some f →
    ∀ name, p.symbols.lookupLocal (.ofNat (i + 1)) name = variableOf f.locals name
  entry : p.program.main.scope = .ofNat (ds.length + 1)
  main : ∀ name, p.symbols.lookupLocal p.program.main.scope name
    = variableOf (Stmt.assignedIn body) name

lemma arranged_finish {d : ProgramDraft} (body : List Stmt) (h : Records d.symbols ds)
    (room : ds.length + 1 < UInt32.size) : Arranged (d.finish body) ds body := by
  have sized := h.size
  have hroom : d.symbols.size < UInt32.size := by omega
  have entry : BindsNew (d.symbols.addScope .global).2 (.ofNat d.symbols.size)
      (Stmt.assignedIn body) (d.finish body).symbols :=
    bindsNew_declareLocals (has_addScope hroom) body
  -- the scope of the entry unit is new, so no earlier scope sees anything of it
  have earlier : ∀ i ≤ ds.length, ∀ name, (d.finish body).symbols.lookupLocal (.ofNat i) name
      = d.symbols.lookupLocal (.ofNat i) name := by
    intro i hi name
    rw [entry.other, lookupLocal_addScope]
    rw [Ne, ← ScopeId.toNat_inj, ScopeId.toNat_ofNat (by omega), ScopeId.toNat_ofNat hroom]
    omega
  constructor
  · rw [entry.links, links_addScope, h.links, List.cons_append, List.replicate_succ']
  · intro name b
    rw [← h.global]
    exact iff_of_eq (congrArg (· = some b) (earlier 0 (Nat.zero_le _) name))
  · intro i f hi name
    have : i < ds.length := (List.getElem?_eq_some_iff.1 hi).1
    rw [earlier (i + 1) (by omega), h.own i f hi]
  · rw [← sized]
    rfl
  · intro name
    change (d.finish body).symbols.lookupLocal (.ofNat d.symbols.size) name = _
    rw [entry.own, lookupLocal_next hroom, Option.none_or]

namespace Arranged

variable {p : CheckedProgram} {body : List Stmt}

lemma size (h : Arranged p ds body) : p.symbols.size = ds.length + 2 := by
  rw [← length_links, h.links]
  simp

lemma has (h : Arranged p ds body) (room : ds.length + 1 < UInt32.size) (hi : i ≤ ds.length + 1) :
    p.symbols.has (.ofNat i) = true := by
  rw [has_iff, ScopeId.toNat_ofNat (by omega), h.size]
  omega

/-- Every scope but the global one lies directly inside it. -/
lemma parent (h : Arranged p ds body) {id : ScopeId} {scope : Scope}
    (hscope : p.symbols.scope? id = some scope) (hid : id ≠ .global) :
    scope.parent = some .global := by
  have hlink : p.symbols.links[id.toNat]? = some scope.parent := by
    rw [SymbolTable.links, List.getElem?_map]
    exact congrArg (Option.map _) hscope
  have hplace : id.toNat ≠ 0 := fun h0 => hid (ScopeId.toNat_inj.1 h0)
  obtain ⟨i, hi⟩ := Nat.exists_eq_succ_of_ne_zero hplace
  rw [h.links, hi, List.getElem?_cons_succ, List.getElem?_replicate] at hlink
  split at hlink
  · exact (Option.some.inj hlink).symm
  · simp at hlink

/-- The global scope binds what is declared, and nothing else. -/
lemma isSome_global (h : Arranged p ds body) (name : String) :
    (p.symbols.lookupLocal .global name).isSome = true ↔ ∃ f ∈ ds, f.name = name := by
  constructor
  · intro hsome
    obtain ⟨b, hb⟩ := Option.isSome_iff_exists.1 hsome
    obtain ⟨i, f, ⟨hi, hname, -⟩, -⟩ := (h.global name b).1 hb
    exact ⟨f, List.mem_of_getElem? hi, hname⟩
  · intro hdeclared
    obtain ⟨i, f, hlast⟩ := exists_lastDeclared hdeclared
    rw [(h.global name _).2 ⟨i, f, hlast, rfl⟩]
    rfl

/-- A declared name is seen from the global scope, as a function whose scope is in the table. -/
lemma functionBinding? (h : Arranged p ds body) (room : ds.length + 1 < UInt32.size)
    (hdeclared : ∃ f ∈ ds, f.name = name) :
    ∃ binding, p.symbols.functionBinding? .global name = some binding ∧
      p.symbols.has binding.scope = true := by
  obtain ⟨i, f, hlast⟩ := exists_lastDeclared hdeclared
  have hlocal := (h.global name _).2 ⟨i, f, hlast, rfl⟩
  have hplace : i < ds.length := (List.getElem?_eq_some_iff.1 hlast.1).1
  refine ⟨f.binding (.ofNat (i + 1)), ?_, h.has room (by omega)⟩
  rw [functionBinding?_eq_some, lookup, h.size, walk, hlocal]

end Arranged

/-- All names that lowering looks up in a drafted program are there. -/
lemma resolved_finish {body : List Stmt} (room : ds.length + 1 < UInt32.size)
    (h : Arranged ((ofDeclarations ds).finish body) ds body) :
    ((ofDeclarations ds).finish body).Resolved where
  valid := validate_of_links h.links room
  function name hname := by
    have hdeclared := exists_of_mem_reachable hname
    obtain ⟨binding, hbinding, hscope⟩ := h.functionBinding? room hdeclared
    obtain ⟨decl, hdecl⟩ := exists_function? body hdeclared
    exact ⟨binding, decl, hbinding, hdecl, hscope⟩

/-- **A drafted program is well-formed**, whatever was declared, as long as scopes can be numbered
and no function has two parameters of one name.  The table is valid and flat: every scope but the
global one lies directly inside the global one.  The global scope binds the declared names and no
others, each to its last declaration, whose scope is in the table.  The scope of a declaration binds
its parameters and what its body assigns to at any depth, each name to a variable of the type given
first, and the scope of the entry unit does the same for its own body.  Lowering never misses a
name. -/
theorem finish_wellFormed (ds : List Declaration) (body : List Stmt)
    (room : ds.length + 2 ≤ UInt32.size) (hdistinct : ∀ f ∈ ds, (f.params.map (·.name)).Nodup) :
    let p := (ofDeclarations ds).finish body
    p.symbols.validate = .ok () ∧
    (∀ id scope, p.symbols.scope? id = some scope → id ≠ .global → scope.parent = some .global) ∧
    (∀ name, (p.symbols.lookupLocal .global name).isSome = true ↔ ∃ f ∈ ds, f.name = name) ∧
    (∀ name b, p.symbols.lookupLocal .global name = some b →
      ∃ i f, LastDeclared ds name i f ∧ b = .fn (f.binding (.ofNat (i + 1))) ∧
        p.symbols.has (.ofNat (i + 1)) = true) ∧
    (∀ i f, ds[i]? = some f → p.symbols.has (.ofNat (i + 1)) = true ∧
      ∀ name, p.symbols.lookupLocal (.ofNat (i + 1)) name = variableOf f.locals name) ∧
    (p.program.main.scope = .ofNat (ds.length + 1) ∧ p.symbols.has p.program.main.scope = true ∧
      ∀ name, p.symbols.lookupLocal p.program.main.scope name
        = variableOf (Stmt.assignedIn body) name) ∧
    ∀ config kind name, assemble p config ≠ .error (.unresolved kind name) := by
  intro p
  have hroom : ds.length + 1 < UInt32.size := by omega
  have h : Arranged p ds body :=
    arranged_finish body (records_ofDeclarations (by omega) hdistinct) hroom
  have placed : ∀ i f, ds[i]? = some f → p.symbols.has (.ofNat (i + 1)) = true := by
    intro i f hi
    have : i < ds.length := (List.getElem?_eq_some_iff.1 hi).1
    exact h.has hroom (by omega)
  have resolved : p.Resolved := resolved_finish hroom h
  refine ⟨resolved.valid, fun id scope => h.parent, h.isSome_global, ?_, ?_, ?_, ?_⟩
  · intro name b hb
    obtain ⟨i, f, hlast, rfl⟩ := (h.global name b).1 hb
    exact ⟨i, f, hlast, rfl, placed i f hlast.1⟩
  · intro i f hi
    exact ⟨placed i f hi, h.own i f hi⟩
  · refine ⟨h.entry, ?_, h.main⟩
    rw [h.entry]
    exact h.has hroom (Nat.le_refl _)
  · intro config kind name herror
    exact resolved.atNode_of_assemble herror

/-- Two declarations of one name.  The first is emitted and assigns to its parameter and, in both
branches of a conditional, to a variable, each time with another type; the second only declares the
name again. -/
def redeclared : List Declaration :=
  [{ name := "f", params := [⟨"a", .int⟩], ret := .int, emitted := true
     body := [Build.assign (Build.ident "a" .string) .assign (Build.str "s"),
       Build.branch (Build.bool true)
         [Build.assign (Build.ident "x" .int) .assign (Build.int 1)]
         [Build.assign (Build.ident "x" .string) .assign (Build.str "s")],
       Build.ret (some (Build.ident "x" .int))] },
   { name := "f", params := [⟨"b", .bool⟩], ret := .void, emitted := false, body := [] }]

/-- The parameter keeps its type, the variable has that of the first branch, the entry unit may use
the name of the function for a variable, and nothing is missing. -/
theorem redeclared_wellFormed :
    let entry := [Build.loop [Build.assign (Build.ident "f" .bool) .assign (Build.bool true)]]
    let p := (ofDeclarations redeclared).finish entry
    redeclared.length + 2 ≤ UInt32.size ∧ (∀ f ∈ redeclared, (f.params.map (·.name)).Nodup) ∧
      p.symbols.validate = .ok () ∧
      (p.symbols.lookupLocal .global "f").isSome = true ∧
      p.symbols.lookupLocal (.ofNat 1) "a" = some (.var ⟨"a", .int⟩) ∧
      p.symbols.lookupLocal (.ofNat 1) "x" = some (.var ⟨"x", .int⟩) ∧
      p.symbols.lookupLocal (.ofNat 2) "x" = none ∧
      p.symbols.lookupLocal p.program.main.scope "f" = some (.var ⟨"f", .bool⟩) ∧
      ∀ config kind name, assemble p config ≠ .error (.unresolved kind name) := by
  intro entry p
  have room : redeclared.length + 2 ≤ UInt32.size := by decide
  have hdistinct : ∀ f ∈ redeclared, (f.params.map (·.name)).Nodup := by decide
  obtain ⟨hvalid, -, hglobal, -, hown, hmain, hassemble⟩ :=
    finish_wellFormed redeclared entry room hdistinct
  refine ⟨room, hdistinct, hvalid, ?_, ?_, ?_, ?_, ?_, hassemble⟩
  · exact (hglobal "f").2 ⟨redeclared[0], by simp [redeclared], rfl⟩
  · exact ((hown 0 _ rfl).2 "a").trans (by decide)
  · exact ((hown 0 _ rfl).2 "x").trans (by decide)
  · exact ((hown 1 _ rfl).2 "x").trans (by decide)
  · exact (hmain.2.2 "f").trans (by decide)

end ProgramDraft

end StackBackend
