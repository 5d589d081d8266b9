import StackBackend.Proofs.Meaning.Direct
import StackBackend.Proofs.Typing.Rules

/-!
# Evaluating expressions over lists directly

What an expression without calls means, lists included, without any code or heap.  A list is its
items, in order; two lists with the same items are the same list.

* `Datum` — a number, a truth value, a text, a list of data, or a function pointer;
* `eval` — evaluation from left to right.  `++` and `--` change the store, and what they changed
  stays changed when evaluation fails later on;
* `isData` — the expressions that are meant: no calls, no function is named, and only numbers, truth
  values and texts are compared.

Operators on single values are those of `Direct`; `combine_eq_calculate` says what they are on
numbers: operations on integers, wrapped to 32 bits.
-/

namespace StackBackend.Data

open Direct (Scalar Failure combine negate invert lengthOf chopped scalarTy)
open Typing

/-! ## Data -/

/-- **What a variable can hold.** -/
inductive Datum where
  | scalar (value : Scalar)
  | list (items : List Datum)
  /-- A function pointer, which is never looked into. -/
  | pointer (address : Nat)
deriving Inhabited

/-- A datum is of a type. -/
inductive Datum.HasTy : Datum → Ty → Prop
  | scalar (v : Scalar) : HasTy (.scalar v) v.ty
  | list {items : List Datum} {element : Ty} : (∀ d ∈ items, HasTy d element) →
      HasTy (.list items) (.list element)
  | pointer (address : Nat) (args : List Ty) (ret : Ty) : HasTy (.pointer address) (.fptr args ret)

lemma hasTy_scalar {v : Scalar} {ty : Ty} : (Datum.scalar v).HasTy ty ↔ ty = v.ty :=
  ⟨fun h => by cases h; rfl, fun h => h ▸ .scalar v⟩

/-- Why evaluation gives no datum. -/
inductive Mishap where
  | failed (why : Failure)
  /-- A place that a list of this length does not have. -/
  | outOfBounds (index : Int32) (length : Nat)
deriving DecidableEq, Inhabited

/-- The data in the variables. -/
abbrev Store := String → Datum

/-- What evaluation does: it gives a datum or fails, and it changes the store. -/
abbrev Eval := EStateM Mishap Store

/-- A result that does not depend on the store. -/
def settle (result : Except Mishap Datum) : Eval Datum :=
  match result with
  | .ok d => pure d
  | .error why => throw why

/-! ## Operators -/

/-- Arithmetic on integers of any size.  Division rounds towards zero. -/
def calculate (op : BinaryOp) (a b : Int) : Except Failure Int :=
  match op with
  | .add => .ok (a + b)
  | .sub => .ok (a - b)
  | .mul => .ok (a * b)
  | .div => if b = 0 then .error .divisionByZero else .ok (a.tdiv b)
  | .mod => if b = 0 then .error .divisionByZero else .ok (a.tmod b)
  | _ => .error .stuck

/-- **Arithmetic on numbers is arithmetic on integers, wrapped to 32 bits.** -/
lemma combine_eq_calculate {op : BinaryOp} (hop : op.cond? = none) (a b : Int32) :
    combine op (.int a) (.int b)
      = (calculate op a.toInt b.toInt).map fun n => .int (Int32.ofInt n) := by
  have zero : b.toInt = 0 ↔ b = 0 := Int32.toInt_inj (y := 0)
  cases op with
  | add => simp [combine, calculate, Except.map, Int32.ofInt_add]
  | sub => simp [combine, calculate, Except.map, Int32.ofInt_sub]
  | mul => simp [combine, calculate, Except.map, Int32.ofInt_mul]
  | div =>
      have wrapped : Int32.ofInt (a.toInt.tdiv b.toInt) = a / b := by
        rw [← Int32.toInt_inj, Int32.toInt_ofInt, Int32.toInt_div]
      by_cases hzero : b = 0 <;> simp [combine, calculate, Except.map, hzero, zero, wrapped]
  | mod =>
      have wrapped : Int32.ofInt (a.toInt.tmod b.toInt) = a % b := by
        rw [← Int32.toInt_mod, Int32.ofInt_toInt]
      by_cases hzero : b = 0 <;> simp [combine, calculate, Except.map, hzero, zero, wrapped]
  | _ => simp [BinaryOp.cond?] at hop

/-- The result of an operator on single values. -/
def ofScalar : Except Failure Scalar → Except Mishap Datum
  | .ok v => .ok (.scalar v)
  | .error why => .error (.failed why)

/-- An operator with one operand. -/
def apply (op : Scalar → Except Failure Scalar) : Datum → Except Mishap Datum
  | .scalar v => ofScalar (op v)
  | _ => .error (.failed .stuck)

/-- An operator with two operands. -/
def apply₂ (op : Scalar → Scalar → Except Failure Scalar) : Datum → Datum → Except Mishap Datum
  | .scalar v, .scalar v' => ofScalar (op v v')
  | _, _ => .error (.failed .stuck)

/-- The length of a text or of a list, as a number of the language. -/
def measure : Datum → Except Mishap Datum
  | .list items => .ok (.scalar (.int (Int32.ofNat items.length)))
  | d => apply lengthOf d

/-- The item of a list at a place. -/
def select : Datum → Datum → Except Mishap Datum
  | .list items, .scalar (.int index) =>
    if index < 0 then .error (.outOfBounds index items.length)
    else match items[index.toInt.toNat]? with
      | some d => .ok d
      | none => .error (.outOfBounds index items.length)
  | _, _ => .error (.failed .stuck)

/-- Count a variable up or down. -/
def count (op : UnaryOp) (target : Expr) : Eval Datum := fun s =>
  match target.ident? with
  | some name =>
    match s name with
    | .scalar (.int a) =>
      let d : Datum := .scalar (.int (if op = .inc then a + 1 else a - 1))
      .ok d (Function.update s name d)
    | _ => .error (.failed .stuck) s
  | none => .error (.failed .stuck) s

/-! ## Evaluation -/

mutual

/-- **The datum an expression stands for.** -/
def eval : Expr → Eval Datum
  | .int _ value => pure (.scalar (.int value))
  | .bool _ value => pure (.scalar (.bool value))
  | .str _ value => pure (.scalar (.text value))
  | .ident _ name => do return (← get) name
  | .list _ elements => do return .list (← evalAll elements)
  | .index _ base [index] => do
    let items ← eval base
    let place ← eval index
    settle (select items place)
  | .binary _ op lhs rhs => do
    let a ← eval lhs
    let b ← eval rhs
    settle (apply₂ (combine op) a b)
  | .unary _ .neg operand => do settle (apply negate (← eval operand))
  | .unary _ .not operand => do settle (apply invert (← eval operand))
  | .unary _ op operand => count op operand
  | .len _ operand => do settle (measure (← eval operand))
  | .chop _ operand => do settle (apply chopped (← eval operand))
  | _ => throw (.failed .stuck)

/-- The data that expressions stand for, one after the other. -/
def evalAll : List Expr → Eval (List Datum)
  | [] => pure []
  | e :: rest => do
    let d ← eval e
    let ds ← evalAll rest
    return d :: ds

end

lemma evalAll_cons (e : Expr) (rest : List Expr) (store : Store) :
    evalAll (e :: rest) store = match eval e store with
      | .ok d store => match evalAll rest store with
        | .ok more store => .ok (d :: more) store
        | .error why store => .error why store
      | .error why store => .error why store := by
  rw [evalAll]
  simp only [bind, EStateM.bind]
  cases eval e store with
  | error why store => rfl
  | ok d store =>
      dsimp only
      cases evalAll rest store <;> rfl

/-- The list of the data that evaluation gives. -/
def asList : EStateM.Result Mishap Store (List Datum) → EStateM.Result Mishap Store Datum
  | .ok data store => .ok (.list data) store
  | .error why store => .error why store

lemma eval_list (note : Note) (elements : List Expr) (store : Store) :
    eval (.list note elements) store = asList (evalAll elements store) := by
  rw [eval]
  simp only [bind, EStateM.bind]
  cases evalAll elements store <;> rfl

/-! ## The fragment -/

mutual

/-- **Whether an expression is one over data**: nothing is called, no function is named, and what is
compared is numbers, truth values or texts. -/
def isData (symbols : SymbolTable) (scope : ScopeId) : Expr → Bool
  | .int _ _ | .bool _ _ | .str _ _ => true
  | .ident _ name => (symbols.functionBinding? scope name).isNone
  | .list _ elements => areData symbols scope elements
  | .index _ base indices => isData symbols scope base && areData symbols scope indices
  | .binary _ _ lhs rhs => scalarTy lhs.ty && isData symbols scope lhs && isData symbols scope rhs
  | .unary _ _ operand | .len _ operand | .chop _ operand => isData symbols scope operand
  | .call _ _ _ | .fnPtr _ _ => false

/-- Whether all of some expressions are. -/
def areData (symbols : SymbolTable) (scope : ScopeId) : List Expr → Bool
  | [] => true
  | e :: rest => isData symbols scope e && areData symbols scope rest

end

end StackBackend.Data
