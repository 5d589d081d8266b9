import StackBackend.Proofs.Lowering.Shape.Expression
import StackBackend.Proofs.Machine.Heap
import StackBackend.Proofs.Machine.Site

/-!
# What fixed sequences of code do

Some constructs lower to sequences that do not depend on what stands around them.  Each is stepped
through once here, from any point of any site.

* `step_truth` — a conditional jump becomes a boxed truth value;
* `step_booleanOf`, `step_integerOf` — a constant is boxed;
* `step_chop` — a text up to its last place;
* `step_closure`, `step_array`, `step_wrap` — a new function pointer, a new array in a slot, and a
  list around it.
-/

namespace StackBackend.Site

open Lowering

variable {s : Site} {pc : Nat} {stack : List Value} {locals : Array Value} {w : World}

lemma step_integerOf {x : Int32} (hpush : s.code[pc]? = some (.ldc (.int x)))
    (hbox : s.code[pc + 1]? = some (.callStatic .integerValueOf)) :
    s.Steps ⟨pc, stack, locals, w⟩ 2 ⟨pc + 2, .integer x :: stack, locals, w⟩ :=
  (step_int hpush).trans (step_boxInt hbox)

lemma step_booleanOf {x : Int32} (hpush : s.code[pc]? = some (.ldc (.int x)))
    (hbox : s.code[pc + 1]? = some (.callStatic .booleanValueOf)) :
    s.Steps ⟨pc, stack, locals, w⟩ 2 ⟨pc + 2, .boolean (x != 0) :: stack, locals, w⟩ :=
  (step_int hpush).trans (step_boxBool hbox)

/-- **A conditional jump becomes a truth value**: whether it is taken. -/
lemma step_truth {branch : Label → Instruction} {n : Nat} {operands : List Value} {taken : Bool}
    (hcode : s.Has pc (truthCode branch n))
    (hbranch : ∀ q, s.code[pc]? = some (branch ⟨n⟩) → s.code[q]? = some (.label ⟨n⟩) →
      s.Steps ⟨pc, operands, locals, w⟩ 1 ⟨target pc q taken, stack, locals, w⟩) :
    ∃ k, s.Steps ⟨pc, operands, locals, w⟩ k ⟨pc + 8, .boolean taken :: stack, locals, w⟩ := by
  simp only [truthCode, has_cons, Nat.add_assoc, Nat.reduceAdd] at hcode
  obtain ⟨hi, hfalse, hbox, hjump, hlabel, htrue, hbox', hexit, -⟩ := hcode
  have jumped := hbranch _ hi hlabel
  cases taken with
  | false =>
      have pushed := jumped.trans (step_booleanOf hfalse hbox)
      exact ⟨_, (pushed.trans (step_jump hjump hexit)).trans (step_label hexit)⟩
  | true =>
      have pushed := (jumped.trans (step_label hlabel)).trans (step_booleanOf htrue hbox')
      exact ⟨_, pushed.trans (step_label hexit)⟩

/-! ## Dropping the last character -/

/-- The last place of a text, as the machine computes it. -/
def lastPlace (text : String) : Int32 := Int32.ofNat text.length - 1

/-- A last place that is not negative is a place of the text. -/
lemma lastPlace_le {text : String} (h : ¬ lastPlace text < 0) :
    (lastPlace text).toInt.toNat ≤ text.length := by
  have zero : (0 : Int32).toInt = 0 := rfl
  have one : (1 : Int32).toInt = 1 := rfl
  rw [Int32.lt_iff_toInt_lt, zero] at h
  have wrapped : (lastPlace text).toInt % 4294967296 = (text.length - 1 : Int) % 4294967296 := by
    rw [lastPlace, Int32.toInt_sub, one, Int32.toInt_ofNat', Int32.size,
      Int.bmod_sub_bmod]
    exact Int.bmod_emod
  have bound : (lastPlace text).toInt < 2147483648 := Int32.toInt_lt (lastPlace text)
  omega

/-- The code up to the call that takes the part out of the text. -/
lemma step_chop {ident : Nat} {text : String} (hcode : s.Has pc chopCode) :
    s.Steps ⟨pc, .text ident text :: stack, locals, w⟩ 6
      ⟨pc + 6, .raw (lastPlace text) :: .raw 0 :: .text ident text :: stack, locals, w⟩ := by
  simp only [chopCode, has_cons, Nat.add_assoc, Nat.reduceAdd] at hcode
  obtain ⟨hdup, hlength, hone, hsub, hzero, hswap, -, -⟩ := hcode
  have measured : s.Steps ⟨pc + 1, .text ident text :: .text ident text :: stack, locals, w⟩ 1
      ⟨pc + 2, .raw (Int32.ofNat text.length) :: .text ident text :: stack, locals, w⟩ :=
    step_call hlength [] rfl rfl rfl rfl
  exact (((((step_dup hdup).trans measured).trans (step_int hone)).trans
    (step_arith hsub rfl)).trans (step_zero hzero)).trans (step_swap hswap)

/-- Taking out the part up to the last place, if there is one. -/
lemma perform_substring (h : Heap) (ident : Nat) (text : String) :
    LibraryMethod.stringSubstring.perform h (.text ident text) [.raw 0, .raw (lastPlace text)]
      = if lastPlace text < 0 then .error (.stringIndex 0 (lastPlace text) text.length)
        else .ok (.done (some (.text h.texts
          (String.ofList (text.toList.take (lastPlace text).toInt.toNat)))),
          { h with texts := h.texts + 1 }) := by
  show (if (0 : Int32) < 0 || lastPlace text < 0 || text.length < (lastPlace text).toInt.toNat
    then _ else _) = _
  by_cases hneg : lastPlace text < 0
  · simp [hneg]
  · have hle := lastPlace_le hneg
    have inside : ¬ text.length < (lastPlace text).toInt.toNat := by omega
    rw [decide_eq_false hneg, decide_eq_false inside, if_neg (by decide), if_neg hneg]
    rfl

/-! ## Objects -/

/-- A function pointer that has just been made is initialized. -/
lemma perform_closure (h : Heap) (receiver : Value) (ident : Nat) (name : String) :
    LibraryMethod.closureInit.perform (h.alloc (.uninit ClassName.closure)).2 (.ref h.objects.size)
        [receiver, .text ident name]
      = .ok (.done none, (h.alloc (.closure receiver name)).2) := by
  simp only [LibraryMethod.perform, List.getElem?_cons_zero, List.getElem?_cons_succ,
    Option.getD_some, Heap.construct_alloc]
  rfl

lemma perform_array (h : Heap) :
    LibraryMethod.arrayInit.perform (h.alloc (.uninit ClassName.array)).2 (.ref h.objects.size) []
      = .ok (.done none, (h.alloc (.array #[])).2) := by
  simp only [LibraryMethod.perform, Heap.construct_alloc]
  rfl

/-- A list that has just been made is put around an array. -/
lemma perform_wrap {h : Heap} {array : Nat} {items : Array Value}
    (harray : h.get? array = some (.array items)) :
    LibraryMethod.listInit.perform (h.alloc (.uninit ClassName.list)).2 (.ref h.objects.size)
        [.ref array]
      = .ok (.done none, (h.alloc (.list (.ref array))).2) := by
  have there : (h.alloc (.uninit ClassName.list)).2.object? (.ref array) = some (.array items) := by
    have := Heap.lt_size_of_get? harray
    simp [Heap.object?, harray, Nat.ne_of_lt this]
  simp only [LibraryMethod.perform, List.getElem?_cons_zero, Option.getD_some, there,
    Heap.construct_alloc]
  rfl

/-- A new function pointer on top of the stack; its receiver is that of the frame. -/
lemma step_closure {name : String} (hcode : s.Has pc (closureCode name)) :
    s.Steps ⟨pc, stack, locals, w⟩ 5
      ⟨pc + 5, .ref w.heap.objects.size :: stack, locals,
        { w with heap := ({ w.heap with texts := w.heap.texts + 1 }.alloc
          (.closure (locals[0]?.getD .null) name)).2 }⟩ := by
  simp only [closureCode, has_cons, Nat.add_assoc, Nat.reduceAdd] at hcode
  obtain ⟨hnew, hdup, hload, htext, hinit, -⟩ := hcode
  have performed := perform_closure { w.heap with texts := w.heap.texts + 1 }
    (locals[0]?.getD .null)
    w.heap.texts name
  exact ((((step_new hnew).trans (step_dup hdup)).trans (step_load hload)).trans
    (step_text htext)).trans
    (step_construct hinit [locals[0]?.getD .null, .text w.heap.texts name] rfl performed rfl)

/-- A new array in a slot. -/
lemma step_array {slot : Nat} (hcode : s.Has pc (arrayCode slot)) :
    s.Steps ⟨pc, stack, locals, w⟩ 4
      ⟨pc + 4, stack, writeLocal locals slot (.ref w.heap.objects.size),
        { w with heap := (w.heap.alloc (.array #[])).2 }⟩ := by
  simp only [arrayCode, has_cons, Nat.add_assoc, Nat.reduceAdd] at hcode
  obtain ⟨hnew, hdup, hinit, hstore, -⟩ := hcode
  exact (((step_new hnew).trans (step_dup hdup)).trans
    (step_construct hinit [] rfl (perform_array w.heap) rfl)).trans (step_store hstore)

/-- A list around the array in a slot. -/
lemma step_wrap {slot array : Nat} {items : Array Value} (hcode : s.Has pc (wrapCode slot))
    (hslot : locals[slot]?.getD .null = .ref array)
    (harray : w.heap.get? array = some (.array items)) :
    s.Steps ⟨pc, stack, locals, w⟩ 4
      ⟨pc + 4, .ref w.heap.objects.size :: stack, locals,
        { w with heap := (w.heap.alloc (.list (.ref array))).2 }⟩ := by
  simp only [wrapCode, has_cons, Nat.add_assoc, Nat.reduceAdd] at hcode
  obtain ⟨hnew, hdup, hload, hinit, -⟩ := hcode
  have loaded : s.Steps ⟨pc + 2, .ref w.heap.objects.size :: .ref w.heap.objects.size :: stack,
      locals, { w with heap := (w.heap.alloc (.uninit ClassName.list)).2 }⟩ 1
      ⟨pc + 3, .ref array :: .ref w.heap.objects.size :: .ref w.heap.objects.size :: stack,
        locals, { w with heap := (w.heap.alloc (.uninit ClassName.list)).2 }⟩ :=
    hslot ▸ step_load hload
  exact (((step_new hnew).trans (step_dup hdup)).trans loaded).trans
    (step_construct hinit [.ref array] rfl (perform_wrap harray) rfl)

end StackBackend.Site
