import StackBackend.Lowering.Statement
import Mathlib.Data.List.Perm.Subperm
import Mathlib.Tactic.Lemma

/-!
# What a body needs slots for

Slots are handed out while a body is lowered, but what for can be read off the body: its variables,
the arrays of its list literals, and the arrays of arguments, of which calls of one function share
one if equally many calls are open around them.

* `Demand` — what needs slots, `Demand.size` how many they are;
* `Need` — a demand that depends on the number of calls around;
* `Expr.need`, `Stmt.need` — what an expression and a statement need.

Nothing here mentions the code that is emitted.  That lowering gives slots to what is needed, and to
nothing else, is a law of its actions (`Lowering.law_needs`).
-/

namespace StackBackend

namespace Lowering

/-! ## Demands -/

/-- **What needs slots**: variables, a number of list literals, and calls, each with the number of
calls around it. -/
structure Demand where
  vars : List String
  literals : Nat
  calls : List (String × Nat)

namespace Demand

instance : EmptyCollection Demand := ⟨⟨[], 0, []⟩⟩

instance : Append Demand :=
  ⟨fun a b => ⟨a.vars ++ b.vars, a.literals + b.literals, a.calls ++ b.calls⟩⟩

/-- What parameters need slots for. -/
def ofParams (params : List Param) : Demand := ⟨params.map Param.name, 0, []⟩

/-- **The number of slots that are needed.** -/
def size (d : Demand) : Nat := d.vars.eraseDups.length + d.literals + d.calls.eraseDups.length

/-- The keys that stand for what is needed, after `met` list literals. -/
def keys (d : Demand) (met : Nat) : List SlotKey :=
  d.vars.eraseDups.map .var ++ (List.range' met d.literals).map .listLiteral ++
    d.calls.eraseDups.map fun call => .callArgs call.1 call.2

variable {d d' : Demand} {met : Nat}

@[simp] lemma vars_append : (d ++ d').vars = d.vars ++ d'.vars := rfl

@[simp] lemma literals_append : (d ++ d').literals = d.literals + d'.literals := rfl

@[simp] lemma calls_append : (d ++ d').calls = d.calls ++ d'.calls := rfl

lemma empty_append (d : Demand) : ∅ ++ d = d := by
  change (⟨[] ++ d.vars, 0 + d.literals, [] ++ d.calls⟩ : Demand) = d
  rw [Nat.zero_add]
  rfl

lemma append_empty (d : Demand) : d ++ ∅ = d := by
  change (⟨d.vars ++ [], d.literals, d.calls ++ []⟩ : Demand) = d
  rw [List.append_nil, List.append_nil]

lemma size_le_append (d d' : Demand) : d.size ≤ (d ++ d').size := by
  simp only [size, vars_append, literals_append, calls_append, List.eraseDups_append,
    List.length_append]
  omega

@[simp] lemma var_mem_keys {name : String} : .var name ∈ d.keys met ↔ name ∈ d.vars := by
  simp [keys]

@[simp] lemma listLiteral_mem_keys {number : Nat} :
    .listLiteral number ∈ d.keys met ↔ met ≤ number ∧ number < met + d.literals := by
  simp [keys, List.mem_range'_1]

@[simp] lemma callArgs_mem_keys {callee : String} {depth : Nat} :
    .callArgs callee depth ∈ d.keys met ↔ (callee, depth) ∈ d.calls := by
  simp [keys]

lemma mem_keys_append_left {key : SlotKey} (h : key ∈ d.keys met) : key ∈ (d ++ d').keys met := by
  cases key with
  | var name => simpa using .inl (var_mem_keys.1 h)
  | listLiteral number =>
      have := listLiteral_mem_keys.1 h
      simp only [listLiteral_mem_keys, literals_append]
      omega
  | callArgs callee depth => simpa using .inl (callArgs_mem_keys.1 h)

/-- What is needed later may be counted from later list literals on. -/
lemma mem_keys_append_right {key : SlotKey} {met' : Nat} (hle : met ≤ met')
    (hle' : met' ≤ met + d.literals) (h : key ∈ d'.keys met') : key ∈ (d ++ d').keys met := by
  cases key with
  | var name => simpa using .inr (var_mem_keys.1 h)
  | listLiteral number =>
      have := listLiteral_mem_keys.1 h
      simp only [listLiteral_mem_keys, literals_append]
      omega
  | callArgs callee depth => simpa using .inr (callArgs_mem_keys.1 h)

/-- Distinct keys that are needed take as many slots as are needed, at most. -/
lemma length_le_size {keys : List SlotKey} (hdistinct : keys.Nodup)
    (hneeded : ∀ key ∈ keys, key ∈ d.keys met) : keys.length ≤ d.size := by
  have counted : (d.keys met).length = d.size := by
    simp [Demand.keys, size, Nat.add_assoc]
  rw [← counted]
  exact (List.subperm_of_subset hdistinct hneeded).length_le

end Demand

/-- **What a part of a body needs**, given the number of calls around it. -/
def Need := Nat → Demand

namespace Need

instance : EmptyCollection Need := ⟨fun _ => ∅⟩

instance : Append Need := ⟨fun a b depth => a depth ++ b depth⟩

def var (name : String) : Need := fun _ => ⟨[name], 0, []⟩

def literal : Need := fun _ => ⟨[], 1, []⟩

def call (name : String) : Need := fun depth => ⟨[], 0, [(name, depth)]⟩

/-- What is needed inside a call. -/
def inside (n : Need) : Need := fun depth => n (depth + 1)

lemma empty_append (n : Need) : ∅ ++ n = n := funext fun depth => Demand.empty_append (n depth)

lemma append_empty (n : Need) : n ++ ∅ = n := funext fun depth => Demand.append_empty (n depth)

/-- A name needs a slot unless it is that of a function. -/
def name (symbols : SymbolTable) (scope : ScopeId) (name : String) : Need :=
  match symbols.lookup scope name with
  | some (.fn _) => ∅
  | _ => var name

end Need

end Lowering

open Lowering

/-! ## Expressions and statements -/

namespace Expr

mutual

/-- **What an expression needs slots for.** -/
def need (symbols : SymbolTable) (scope : ScopeId) : Expr → Need
  | int _ _ | bool _ _ | str _ _ | fnPtr _ _ => ∅
  | ident _ name => .name symbols scope name
  | list _ elements => .literal ++ needIn symbols scope elements
  | call _ callee args =>
    match callee.ident? with
    | none => ∅
    | some name =>
      .name symbols scope name ++ (.call name ++ (needIn symbols scope args).inside)
  | index _ base [place] => base.need symbols scope ++ place.need symbols scope
  | index _ _ _ => ∅
  | binary _ _ lhs rhs => lhs.need symbols scope ++ rhs.need symbols scope
  | unary _ .neg operand | unary _ .not operand => operand.need symbols scope
  -- the name may be a function's, which is loaded without a slot, but it is stored to in any case
  | unary _ _ operand =>
    match operand.ident? with
    | none => ∅
    | some name => operand.need symbols scope ++ .var name
  | len _ operand | chop _ operand => operand.need symbols scope

def needIn (symbols : SymbolTable) (scope : ScopeId) : List Expr → Need
  | [] => ∅
  | e :: rest => e.need symbols scope ++ needIn symbols scope rest

end

end Expr

namespace Stmt

/-- What an assignment needs slots for: a compound one reads its target as well. -/
def assignNeed (symbols : SymbolTable) (scope : ScopeId) (target : Expr) (index : Option Expr)
    (op : AssignOp) (value : Expr) : Need :=
  match target.ident? with
  | none => ∅
  | some name => .var name ++
    match index with
    | none => (assignedValue op target value).need symbols scope
    | some index =>
      match target.ty.element? with
      | none => ∅
      | some element =>
        index.need symbols scope ++
          (assignedValue op (.index { ty := element, span := target.span } target [index])
            value).need symbols scope

mutual

/-- **What a statement needs slots for.** -/
def need (symbols : SymbolTable) (scope : ScopeId) : Stmt → Need
  | assign _ target index op value => assignNeed symbols scope target index op value
  | branch _ cond thenBody elseBody block =>
    cond.need symbols scope ++ (needIn symbols (symbols.enter scope block) thenBody ++
      needIn symbols (symbols.enter scope block) elseBody)
  | loop _ body block => needIn symbols (symbols.enter scope block) body
  | exitLoop _ | nextLoop _ | ret _ none => ∅
  | ret _ (some value) | put _ value | eval _ value => value.need symbols scope

def needIn (symbols : SymbolTable) (scope : ScopeId) : List Stmt → Need
  | [] => ∅
  | stmt :: rest => stmt.need symbols scope ++ needIn symbols scope rest

end

end Stmt

end StackBackend
