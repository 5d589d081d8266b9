import StackBackend.Tree.Basic
import Mathlib.Logic.Function.Basic
import Mathlib.Tactic.Lemma

/-!
# Executing a block directly

What a block of statements over numbers, truth values and texts means, without any code: a store
gives each variable a value, an expression is evaluated in it, and a statement changes it, prints
lines, and ends in one of a few ways.

* `eval` — evaluation from left to right; `++` and `--` change the store and yield the new value;
* `execStmt`, `execBlock` — execution.  A loop is given a number of rounds, `fuel`, and execution
  that would need more is still `running`;
* `Ends`, `Diverges` — execution ends with some number of rounds, or with none.

**Meaning does not depend on the fuel**: execution that ends with some rounds ends the same way with
more (`execBlock_mono`), so a block ends in at most one way (`Ends.unique`).

Lists, calls and function pointers are left out: evaluation is `stuck` on them, as it is on operands
an operator does not take.
-/

namespace StackBackend.Direct

/-! ## Values -/

/-- A number, a truth value or a text. -/
inductive Scalar where
  | int (value : Int32)
  | bool (value : Bool)
  | text (value : String)
deriving DecidableEq, Inhabited

namespace Scalar

/-- The type of a value. -/
def ty : Scalar → Ty
  | int _ => .int
  | bool _ => .bool
  | text _ => .string

/-- The line that is printed for a value. -/
def line : Scalar → String
  | int value => toString value.toInt
  | bool value => toString value
  | text value => value

end Scalar

/-- Why evaluation gives no value. -/
inductive Failure where
  | divisionByZero
  | stringIndex
  /-- The expression is not one over numbers, truth values and texts. -/
  | stuck
deriving DecidableEq, Inhabited

/-- The values of the variables. -/
abbrev Store := String → Scalar

/-! ## Operators -/

/-- An operator with two operands.  Numbers wrap around; texts and truth values can be compared for
equality only. -/
def combine (op : BinaryOp) : Scalar → Scalar → Except Failure Scalar
  | .int a, .int b =>
    match op with
    | .add => .ok (.int (a + b))
    | .sub => .ok (.int (a - b))
    | .mul => .ok (.int (a * b))
    | .div => if b = 0 then .error .divisionByZero else .ok (.int (a / b))
    | .mod => if b = 0 then .error .divisionByZero else .ok (.int (a % b))
    | .eq => .ok (.bool (a = b))
    | .ne => .ok (.bool (a ≠ b))
    | .gt => .ok (.bool (b < a))
    | .ge => .ok (.bool (b ≤ a))
    | .lt => .ok (.bool (a < b))
    | .le => .ok (.bool (a ≤ b))
  | .bool a, .bool b =>
    match op with
    | .eq => .ok (.bool (a = b))
    | .ne => .ok (.bool (a ≠ b))
    | _ => .error .stuck
  | .text a, .text b =>
    match op with
    | .eq => .ok (.bool (a = b))
    | .ne => .ok (.bool (a ≠ b))
    | _ => .error .stuck
  | _, _ => .error .stuck

/-- The opposite of a number. -/
def negate : Scalar → Except Failure Scalar
  | .int a => .ok (.int (-a))
  | _ => .error .stuck

/-- The other truth value. -/
def invert : Scalar → Except Failure Scalar
  | .bool b => .ok (.bool !b)
  | _ => .error .stuck

/-- The length of a text, as a number of the language. -/
def lengthOf : Scalar → Except Failure Scalar
  | .text t => .ok (.int (Int32.ofNat t.length))
  | _ => .error .stuck

/-- A text up to its last character.  Places in a text are numbers of the language, so one that is
too long for its length to be such a number may have no last place. -/
def chopped : Scalar → Except Failure Scalar
  | .text t =>
    let last := Int32.ofNat t.length - 1
    if last < 0 then .error .stringIndex
    else .ok (.text (String.ofList (t.toList.take last.toInt.toNat)))
  | _ => .error .stuck

/-- A text of ordinary length loses its last character, and the empty text has none to lose. -/
lemma chopped_text {t : String} (h : t.length ≤ Int32.maxValue.toInt) :
    chopped (.text t) = if t.length = 0 then .error .stringIndex
      else .ok (.text (String.ofList t.toList.dropLast)) := by
  have ordinary : t.length < 2147483648 := by
    rw [Int32.toInt_maxValue] at h
    omega
  by_cases hzero : t.length = 0
  · simp [chopped, hzero]
  · have last : (Int32.ofNat t.length - 1).toInt = t.length - 1 := by
      rw [Int32.toInt_sub, Int32.toInt_ofNat_of_lt (by simpa using ordinary)]
      have one : (1 : Int32).toInt = 1 := rfl
      rw [one, Int.bmod_eq_of_le (by omega) (by omega)]
    have place : (t.length - 1 : Int).toNat = t.length - 1 := by omega
    have nonneg : ¬ Int32.ofNat t.length - 1 < 0 := by
      rw [Int32.lt_iff_toInt_lt, last]
      have zero : (0 : Int32).toInt = 0 := rfl
      omega
    simp [chopped, hzero, nonneg, last, place, List.dropLast_eq_take, String.length_toList]

/-- Count a variable up or down. -/
def count (op : UnaryOp) (target : Expr) (s : Store) : Except Failure (Scalar × Store) :=
  match target.ident? with
  | some name =>
    match s name with
    | .int a =>
      let v := .int (if op = .inc then a + 1 else a - 1)
      .ok (v, Function.update s name v)
    | _ => .error .stuck
  | none => .error .stuck

/-! ## Evaluation -/

/-- **The value of an expression**, and the store afterwards. -/
def eval : Expr → Store → Except Failure (Scalar × Store)
  | .int _ value, s => .ok (.int value, s)
  | .bool _ value, s => .ok (.bool value, s)
  | .str _ value, s => .ok (.text value, s)
  | .ident _ name, s => .ok (s name, s)
  | .binary _ op lhs rhs, s => do
    let (a, s) ← eval lhs s
    let (b, s) ← eval rhs s
    let v ← combine op a b
    .ok (v, s)
  | .unary _ .neg operand, s => do
    let (a, s) ← eval operand s
    let v ← negate a
    .ok (v, s)
  | .unary _ .not operand, s => do
    let (a, s) ← eval operand s
    let v ← invert a
    .ok (v, s)
  | .unary _ op operand, s => count op operand s
  | .len _ operand, s => do
    let (a, s) ← eval operand s
    let v ← lengthOf a
    .ok (v, s)
  | .chop _ operand, s => do
    let (a, s) ← eval operand s
    let v ← chopped a
    .ok (v, s)
  | _, _ => .error .stuck

/-- The value that an assignment to a variable stores.  A compound assignment reads the variable
before it evaluates the operand. -/
def assigned (op : AssignOp) (name : String) (value : Expr) (s : Store) :
    Except Failure (Scalar × Store) :=
  match op.binary? with
  | none => eval value s
  | some op => do
    let old := s name
    let (b, s) ← eval value s
    let v ← combine op old b
    .ok (v, s)

/-! ## Execution -/

/-- How execution ends. -/
inductive Ending where
  /-- After the last statement. -/
  | falls
  /-- At a `break`. -/
  | breaks
  /-- At a `next`. -/
  | restarts
  /-- At a return, with the value returned. -/
  | returns (value : Option Scalar)
  | fails (why : Failure)
  /-- Not yet. -/
  | running
deriving DecidableEq, Inhabited

/-- What execution works on: the variables, and the lines printed so far. -/
structure Snapshot where
  store : Store
  printed : List String := []

/-- Go on with the value of an expression, if it has one. -/
def withValue (s : Snapshot) (result : Except Failure (Scalar × Store))
    (next : Scalar → Snapshot → Ending × Snapshot) : Ending × Snapshot :=
  match result with
  | .error why => (.fails why, s)
  | .ok (v, store) => next v { s with store }

/-- Go on with the branch that a truth value chooses. -/
def choose (yes no : Snapshot → Ending × Snapshot) : Scalar → Snapshot → Ending × Snapshot
  | .bool true, s => yes s
  | .bool false, s => no s
  | _, s => (.fails .stuck, s)

/-- Repeat a body for a number of rounds at most. -/
def iterate (body : Snapshot → Ending × Snapshot) : (rounds : Nat) → Snapshot → Ending × Snapshot
  | 0, s => (.running, s)
  | rounds + 1, s =>
    match body s with
    | (.falls, s) | (.restarts, s) => iterate body rounds s
    | (.breaks, s) => (.falls, s)
    | ended => ended

mutual

/-- **Execute a statement**, each loop for `fuel` rounds at most. -/
def execStmt (fuel : Nat) : Stmt → Snapshot → Ending × Snapshot
  | .assign _ target none op value, s =>
    match target.ident? with
    | some name => withValue s (assigned op name value s.store) fun v s =>
        (.falls, { s with store := Function.update s.store name v })
    | none => (.fails .stuck, s)
  | .assign _ _ (some _) _ _, s => (.fails .stuck, s)
  | .branch _ cond thenBody elseBody _, s =>
    withValue s (eval cond s.store) (choose (execBlock fuel thenBody) (execBlock fuel elseBody))
  | .loop _ body _, s => iterate (execBlock fuel body) fuel s
  | .exitLoop _, s => (.breaks, s)
  | .nextLoop _, s => (.restarts, s)
  | .ret _ none, s => (.returns none, s)
  | .ret _ (some value), s => withValue s (eval value s.store) fun v s => (.returns (some v), s)
  | .put _ value, s => withValue s (eval value s.store) fun v s =>
      (.falls, { s with printed := s.printed ++ [v.line] })
  | .eval _ e, s => withValue s (eval e s.store) fun _ s => (.falls, s)

/-- **Execute a block**, statement by statement. -/
def execBlock (fuel : Nat) : List Stmt → Snapshot → Ending × Snapshot
  | [], s => (.falls, s)
  | stmt :: rest, s =>
    match execStmt fuel stmt s with
    | (.falls, s) => execBlock fuel rest s
    | ended => ended

end

/-- Execution of a block ends, in this way. -/
def Ends (block : List Stmt) (s : Snapshot) (ending : Ending) (s' : Snapshot) : Prop :=
  ending ≠ .running ∧ ∃ fuel, execBlock fuel block s = (ending, s')

/-- Execution of a block never ends. -/
def Diverges (block : List Stmt) (s : Snapshot) : Prop :=
  ∀ fuel, (execBlock fuel block s).1 = .running

/-! ## The fragment -/

/-- Whether values of a type are numbers, truth values or texts. -/
def scalarTy : Ty → Bool
  | .int | .bool | .string => true
  | _ => false

/-- Whether an expression has no lists, calls or function pointers in it. -/
def scalarExpr : Expr → Bool
  | .int _ _ | .bool _ _ | .str _ _ => true
  | .ident note _ => scalarTy note.ty
  | .binary _ _ lhs rhs => scalarExpr lhs && scalarExpr rhs
  | .unary _ _ operand | .len _ operand | .chop _ operand => scalarExpr operand
  | _ => false

mutual

/-- Whether a statement has no lists, calls or function pointers in it. -/
def scalarStmt : Stmt → Bool
  | .assign _ target none _ value => scalarExpr target && scalarExpr value
  | .assign _ _ (some _) _ _ => false
  | .branch _ cond thenBody elseBody _ =>
    scalarExpr cond && scalarBlock thenBody && scalarBlock elseBody
  | .loop _ body _ => scalarBlock body
  | .exitLoop _ | .nextLoop _ | .ret _ none => true
  | .ret _ (some e) | .put _ e | .eval _ e => scalarExpr e

/-- Whether a block has no lists, calls or function pointers in it. -/
def scalarBlock : List Stmt → Bool
  | [] => true
  | stmt :: rest => scalarStmt stmt && scalarBlock rest

end

/-! ## Fuel -/

/-- `g` ends wherever `f` does, and in the same way. -/
def Extends (f g : Snapshot → Ending × Snapshot) : Prop :=
  ∀ s, (f s).1 ≠ .running → g s = f s

lemma iterate_extends {f g : Snapshot → Ending × Snapshot} (h : Extends f g) {m n : Nat}
    (hmn : m ≤ n) : Extends (iterate f m) (iterate g n) := by
  induction m generalizing n with
  | zero =>
      intro s hs
      simp [iterate] at hs
  | succ m ih =>
      intro s hs
      obtain ⟨k, rfl⟩ : ∃ k, n = k + 1 := ⟨n - 1, by omega⟩
      have rest := ih (n := k) (by omega)
      have first := h s
      rw [iterate] at hs ⊢
      rw [iterate]
      rcases hf : f s with ⟨ending, s'⟩
      rw [hf] at first hs
      cases ending with
      | running => simp at hs
      | falls | restarts =>
          rw [first (by simp)]
          exact rest s' hs
      | breaks | returns _ | fails _ => rw [first (by simp)]

lemma withValue_extends {s : Snapshot} {result : Except Failure (Scalar × Store)}
    {f g : Scalar → Snapshot → Ending × Snapshot} (h : ∀ v, Extends (f v) (g v))
    (hs : (withValue s result f).1 ≠ .running) : withValue s result g = withValue s result f := by
  cases result with
  | error why => rfl
  | ok found => exact h _ _ hs

mutual

lemma execStmt_extends {m n : Nat} (hmn : m ≤ n) (stmt : Stmt) :
    Extends (execStmt m stmt) (execStmt n stmt) := by
  intro s hs
  match stmt with
  | .branch _ cond thenBody elseBody _ =>
      rw [execStmt] at hs ⊢
      rw [execStmt]
      refine withValue_extends (fun v s hs => ?_) hs
      match v with
      | .bool true => exact execBlock_extends hmn thenBody s hs
      | .bool false => exact execBlock_extends hmn elseBody s hs
      | .int _ | .text _ => rfl
  | .loop _ body _ =>
      rw [execStmt] at hs ⊢
      rw [execStmt]
      exact iterate_extends (execBlock_extends hmn body) hmn s hs
  | .assign _ _ none _ _ | .assign _ _ (some _) _ _ | .exitLoop _ | .nextLoop _ | .ret _ none
  | .ret _ (some _) | .put _ _ | .eval _ _ => simp only [execStmt]

lemma execBlock_extends {m n : Nat} (hmn : m ≤ n) (block : List Stmt) :
    Extends (execBlock m block) (execBlock n block) := by
  intro s hs
  match block with
  | [] => simp only [execBlock]
  | stmt :: rest =>
      have first := execStmt_extends hmn stmt s
      rw [execBlock] at hs ⊢
      rw [execBlock]
      rcases hstmt : execStmt m stmt s with ⟨ending, s'⟩
      rw [hstmt] at first hs
      cases ending with
      | running => simp at hs
      | falls =>
          rw [first (by simp)]
          exact execBlock_extends hmn rest s' hs
      | restarts | breaks | returns _ | fails _ => rw [first (by simp)]

end

/-- **More fuel does not change how a block ends.** -/
theorem execBlock_mono {m n : Nat} (hmn : m ≤ n) {block : List Stmt} {s : Snapshot}
    (h : (execBlock m block s).1 ≠ .running) : execBlock n block s = execBlock m block s :=
  execBlock_extends hmn block s h

/-- **A block ends in at most one way.** -/
theorem Ends.unique {block : List Stmt} {s s₁ s₂ : Snapshot} {ending₁ ending₂ : Ending}
    (h₁ : Ends block s ending₁ s₁) (h₂ : Ends block s ending₂ s₂) :
    ending₁ = ending₂ ∧ s₁ = s₂ := by
  obtain ⟨hr₁, m, hm⟩ := h₁
  obtain ⟨hr₂, n, hn⟩ := h₂
  have same : execBlock m block s = execBlock n block s := by
    rcases Nat.le_total m n with hle | hle
    · exact (execBlock_mono hle (by rw [hm]; exact hr₁)).symm
    · exact execBlock_mono hle (by rw [hn]; exact hr₂)
  rw [hm, hn] at same
  exact ⟨congrArg Prod.fst same, congrArg Prod.snd same⟩

end StackBackend.Direct
