import StackBackend.Proofs.Lowering.Sequences
import StackBackend.Proofs.Meaning.Direct

/-!
# Single values on the machine

How numbers, truth values and texts look on the machine, and what its operations do to them.

* `Represents` — a machine value is a number, a truth value or a text;
* `Raises` — a fault is what a failure looks like;
* `step_downcast`, `step_unboxing` — values pass the checks for their types, and are unboxed;
* `combine_of_arith`, `combine_of_scalar`, `combine_of_text` — what the machine computes for an
  operator is what the operator means.
-/

namespace StackBackend.Direct

open Lowering

/-- A machine value is a number, a truth value or a text. -/
inductive Represents : Value → Scalar → Prop
  | int (a : Int32) : Represents (.integer a) (.int a)
  | bool (b : Bool) : Represents (.boolean b) (.bool b)
  | text (ident : Nat) (t : String) : Represents (.text ident t) (.text t)

/-- A fault is what a failure looks like on the machine. -/
inductive Raises : Failure → Fault → Prop
  | divisionByZero : Raises .divisionByZero .divisionByZero
  | stringIndex (start stop : Int32) (length : Nat) :
      Raises .stringIndex (.stringIndex start stop length)

/-! ## By type -/

lemma Represents.of_int {value : Value} {v : Scalar} (h : Represents value v) (hty : v.ty = .int) :
    ∃ a, value = .integer a ∧ v = .int a := by
  cases h with
  | int a => exact ⟨a, rfl, rfl⟩
  | bool _ | text _ _ => simp [Scalar.ty] at hty

lemma Represents.of_bool {value : Value} {v : Scalar} (h : Represents value v)
    (hty : v.ty = .bool) : ∃ b, value = .boolean b ∧ v = .bool b := by
  cases h with
  | bool b => exact ⟨b, rfl, rfl⟩
  | int _ | text _ _ => simp [Scalar.ty] at hty

lemma Represents.of_text {value : Value} {v : Scalar} (h : Represents value v)
    (hty : v.ty = .string) : ∃ ident t, value = .text ident t ∧ v = .text t := by
  cases h with
  | text ident t => exact ⟨ident, t, rfl, rfl⟩
  | int _ | bool _ => simp [Scalar.ty] at hty

/-- The raw integer of a number or a truth value. -/
def Scalar.raw : Scalar → Int32
  | .int a => a
  | .bool b => if b then 1 else 0
  | .text _ => 0

section Values

variable {s : Site} {pc : Nat} {stack : List Value} {locals : Array Value} {w : World}
  {value : Value} {v : Scalar} {ty : Ty}

/-- A value passes the check for its type. -/
lemma step_downcast (h : Represents value v) (hty : v.ty = ty)
    (hcode : s.Has pc (downcast ty)) :
    s.Steps ⟨pc, value :: stack, locals, w⟩ 1
      ⟨pc + (downcast ty).length, value :: stack, locals, w⟩ := by
  subst hty
  cases h with
  | int _ | bool _ | text _ _ =>
      refine Site.step_cast (Site.has_cons.1 hcode).1 ?_
      simp [Heap.checkCast, Heap.typeName]

/-- A number or a truth value is unboxed. -/
lemma step_unboxing (h : Represents value v) (hty : v.ty = ty)
    (hprimitive : ty.isPrimitive = true) (hcode : s.Has pc (unboxing ty)) :
    s.Steps ⟨pc, value :: stack, locals, w⟩ 1
      ⟨pc + (unboxing ty).length, .raw v.raw :: stack, locals, w⟩ := by
  subst hty
  cases h with
  | int _ => exact Site.step_unboxInt (Site.has_cons.1 hcode).1
  | bool _ => exact Site.step_unboxBool (Site.has_cons.1 hcode).1
  | text _ _ => simp [Scalar.ty, Ty.isPrimitive] at hprimitive

end Values

/-- Arithmetic on the machine is arithmetic on numbers. -/
lemma combine_of_arith {op : BinaryOp} (hop : op.cond? = none) (a b : Int32) :
    (∃ c, op.intOp.apply a b = .ok c ∧ combine op (.int a) (.int b) = .ok (.int c)) ∨
      op.intOp.apply a b = .error .divisionByZero ∧
        combine op (.int a) (.int b) = .error .divisionByZero := by
  cases op with
  | add | sub | mul => exact .inl ⟨_, rfl, rfl⟩
  | div | mod =>
      by_cases hzero : b = 0
      · exact .inr (by simp [BinaryOp.intOp, IntOp.apply, combine, hzero])
      · exact .inl ⟨_, by simp [BinaryOp.intOp, IntOp.apply, hzero]; rfl, by simp [combine, hzero]⟩
  | _ => simp [BinaryOp.cond?] at hop

/-- Comparing raw integers is comparing numbers or truth values. -/
lemma combine_of_scalar {op : BinaryOp} {cond cond' : Cond} {a b : Scalar}
    (hop : op.cond? = some cond) (h : comparison? op cond a.ty b.ty = some (.scalar cond')) :
    combine op a b = .ok (.bool (cond'.holds a.raw b.raw)) := by
  cases a <;> cases b <;> simp only [Scalar.ty, comparison?] at h ⊢ <;> simp at h
  case int.int a b =>
      subst h
      cases op <;> simp only [BinaryOp.cond?, Option.some.injEq, reduceCtorEq] at hop <;>
        subst hop <;> rfl
  case bool.bool a b =>
      obtain ⟨heq, rfl⟩ := h
      cases op <;> simp [BinaryOp.isEquality] at heq <;>
        simp only [BinaryOp.cond?, Option.some.injEq] at hop <;> subst hop <;>
        cases a <;> cases b <;> rfl
  all_goals simp [Ty.isReference] at h

/-- Comparing contents is comparing texts. -/
lemma combine_of_text {op : BinaryOp} {cond : Cond} (t u : String)
    (h : comparison? op cond .string .string = some .text) :
    combine op (.text t) (.text u) = .ok (.bool (if op = .eq then u = t else u ≠ t)) := by
  cases op <;> simp [comparison?, BinaryOp.isEquality] at h <;> simp [combine, eq_comm]

end StackBackend.Direct
