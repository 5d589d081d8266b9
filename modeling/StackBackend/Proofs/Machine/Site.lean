import StackBackend.Proofs.Machine.Effect
import StackBackend.Proofs.Machine.Moves
import StackBackend.Proofs.StackProfile.Labels

/-!
# Stepping through a piece of code

While a frame runs its own code, most of the machine stands still: the class, the callers, the code
and its labels.  That is a `Site`; what changes is a `Point`: the place, the operands, the locals
and the world.

* `Site.Steps p n q` — `n` steps lead from one point of a site to another;
* `Site.Has pc code` — a piece of code stands at a place;
* one lemma per instruction, named `Site.step_…`, says which point it leads to, and
  `Site.fails_…` says when it stops the run.

A site's class does not carry the name of a library class, so that the operands of emitted code
name library methods, and its labels are the ones its code defines.  Both are part of the structure.
-/

namespace StackBackend

/-! ## Sites and points -/

/-- Where a piece of code runs: all of a machine that stands still while it does. -/
structure Site where
  classFile : ClassFile
  method : String
  code : Code
  labels : LabelTable
  use : ResultUse
  callers : List Frame
  apart : ∀ m : LibraryMethod, m.ref.owner ≠ classFile.name
  located : labelTable code = .ok labels

/-- What changes while a frame runs its own code. -/
structure Point where
  pc : Nat
  stack : List Value
  locals : Array Value
  world : World

namespace Site

/-- The frame of a site at a point. -/
def frame (s : Site) (p : Point) : Frame :=
  { method := s.method, code := s.code, labels := s.labels, pc := p.pc, stack := p.stack
    locals := p.locals, use := s.use }

/-- The machine of a site at a point. -/
def machine (s : Site) (p : Point) : Machine :=
  { frame := s.frame p, callers := s.callers, world := p.world }

/-- **`n` steps lead from one point to another.** -/
def Steps (s : Site) (p : Point) (n : Nat) (q : Point) : Prop :=
  Machine.Leads s.classFile (s.machine p) n (s.machine q)

/-- The instruction at a point stops the run with a fault, and leaves the heap and the printed lines
as they are. -/
def Fails (s : Site) (p : Point) (fault : Fault) : Prop :=
  Machine.Stops s.classFile (s.machine p) 1 (.error fault) (p.world.leave s.callers.length)

lemma Steps.refl (s : Site) (p : Point) : s.Steps p 0 p := Machine.Leads.refl

lemma Steps.trans {s : Site} {p q r : Point} {k n : Nat} (h : s.Steps p k q)
    (h' : s.Steps q n r) : s.Steps p (k + n) r :=
  Machine.Leads.trans h h'

/-! ## Code at a place -/

/-- A piece of code stands at a place. -/
def Has (s : Site) (pc : Nat) (code : List Instruction) : Prop :=
  ∀ j i, code[j]? = some i → s.code[pc + j]? = some i

@[simp] lemma has_nil (s : Site) (pc : Nat) : s.Has pc [] := by
  intro j i h
  simp at h

@[simp] lemma has_cons {s : Site} {pc : Nat} {i : Instruction} {rest : List Instruction} :
    s.Has pc (i :: rest) ↔ s.code[pc]? = some i ∧ s.Has (pc + 1) rest := by
  constructor
  · intro h
    refine ⟨h 0 i rfl, fun j x hx => ?_⟩
    have shifted := h (j + 1) x (by simpa using hx)
    rwa [show pc + (j + 1) = pc + 1 + j by omega] at shifted
  · rintro ⟨hi, hrest⟩ j x hx
    cases j with
    | zero =>
        obtain rfl : i = x := by simpa using hx
        exact hi
    | succ j =>
        have shifted := hrest j x (by simpa using hx)
        rwa [show pc + 1 + j = pc + (j + 1) by omega] at shifted

@[simp] lemma has_append {s : Site} {pc : Nat} {code more : List Instruction} :
    s.Has pc (code ++ more) ↔ s.Has pc code ∧ s.Has (pc + code.length) more := by
  induction code generalizing pc with
  | nil => simp
  | cons i rest ih =>
      have regrouped : pc + 1 + rest.length = pc + (rest.length + 1) := by omega
      simp [ih, and_assoc, regrouped]

/-! ## Instructions that stay in the frame -/

variable {s : Site} {pc : Nat} {stack : List Value} {locals : Array Value} {w : World}

lemma step_of_execute {p q : Point} {i : Instruction} (hi : s.code[p.pc]? = some i)
    (h : (s.frame p).advanced.execute s.classFile i p.world = (.ok (.next (s.frame q)), q.world)) :
    s.Steps p 1 q :=
  (Machine.Moves.execute hi h rfl).leads

lemma fails_of_execute {p : Point} {i : Instruction} {fault : Fault}
    (hi : s.code[p.pc]? = some i)
    (h : (s.frame p).advanced.execute s.classFile i p.world = (.error fault, p.world)) :
    s.Fails p fault :=
  .fault hi h

lemma step_label {l : Label} (hi : s.code[pc]? = some (.label l)) :
    s.Steps ⟨pc, stack, locals, w⟩ 1 ⟨pc + 1, stack, locals, w⟩ :=
  step_of_execute hi rfl

lemma step_load {slot : Nat} (hi : s.code[pc]? = some (.load slot)) :
    s.Steps ⟨pc, stack, locals, w⟩ 1 ⟨pc + 1, locals[slot]?.getD .null :: stack, locals, w⟩ :=
  step_of_execute hi rfl

lemma step_int {x : Int32} (hi : s.code[pc]? = some (.ldc (.int x))) :
    s.Steps ⟨pc, stack, locals, w⟩ 1 ⟨pc + 1, .raw x :: stack, locals, w⟩ :=
  step_of_execute hi rfl

lemma step_text {text : String} (hi : s.code[pc]? = some (.ldc (.str text))) :
    s.Steps ⟨pc, stack, locals, w⟩ 1
      ⟨pc + 1, .text w.heap.texts text :: stack, locals,
        { w with heap := { w.heap with texts := w.heap.texts + 1 } }⟩ :=
  step_of_execute hi rfl

lemma step_zero (hi : s.code[pc]? = some .zero) :
    s.Steps ⟨pc, stack, locals, w⟩ 1 ⟨pc + 1, .raw 0 :: stack, locals, w⟩ :=
  step_of_execute hi rfl

lemma step_new {owner : String} (hi : s.code[pc]? = some (.new owner)) :
    s.Steps ⟨pc, stack, locals, w⟩ 1
      ⟨pc + 1, .ref w.heap.objects.size :: stack, locals,
        { w with heap := (w.heap.alloc (.uninit owner)).2 }⟩ :=
  step_of_execute hi rfl

lemma step_dup {v : Value} (hi : s.code[pc]? = some .dup) :
    s.Steps ⟨pc, v :: stack, locals, w⟩ 1 ⟨pc + 1, v :: v :: stack, locals, w⟩ :=
  step_of_execute hi rfl

lemma step_pop {v : Value} (hi : s.code[pc]? = some .pop) :
    s.Steps ⟨pc, v :: stack, locals, w⟩ 1 ⟨pc + 1, stack, locals, w⟩ :=
  step_of_execute hi rfl

lemma step_swap {a b : Value} (hi : s.code[pc]? = some .swap) :
    s.Steps ⟨pc, a :: b :: stack, locals, w⟩ 1 ⟨pc + 1, b :: a :: stack, locals, w⟩ :=
  step_of_execute hi rfl

lemma step_cast {owner : String} {v : Value} (hi : s.code[pc]? = some (.cast owner))
    (hcast : w.heap.checkCast owner v = .ok ()) :
    s.Steps ⟨pc, v :: stack, locals, w⟩ 1 ⟨pc + 1, v :: stack, locals, w⟩ := by
  refine step_of_execute hi ?_
  simp only [Frame.execute, Frame.stay, Frame.pop, Frame.advanced, frame]
  simp [bind, Except.bind, hcast, Except.map]

lemma step_console (hi : s.code[pc]? = some (.getStatic consoleField)) :
    s.Steps ⟨pc, stack, locals, w⟩ 1 ⟨pc + 1, .console :: stack, locals, w⟩ :=
  step_of_execute hi rfl

lemma step_neg {x : Int32} (hi : s.code[pc]? = some .neg) :
    s.Steps ⟨pc, .raw x :: stack, locals, w⟩ 1 ⟨pc + 1, .raw (-x) :: stack, locals, w⟩ :=
  step_of_execute hi rfl

lemma step_arith {op : IntOp} {x y z : Int32} (hi : s.code[pc]? = some (.arith op))
    (h : op.apply x y = .ok z) :
    s.Steps ⟨pc, .raw y :: .raw x :: stack, locals, w⟩ 1
      ⟨pc + 1, .raw z :: stack, locals, w⟩ := by
  refine step_of_execute hi ?_
  simp only [Frame.execute, Frame.stay, Frame.popInt, Frame.pop, Heap.rawInt, Frame.advanced, frame]
  simp [bind, Except.bind, h, Except.map, Frame.push]

lemma fails_arith {op : IntOp} {x y : Int32} {fault : Fault}
    (hi : s.code[pc]? = some (.arith op)) (h : op.apply x y = .error fault) :
    s.Fails ⟨pc, .raw y :: .raw x :: stack, locals, w⟩ fault := by
  refine fails_of_execute hi ?_
  simp only [Frame.execute, Frame.stay, Frame.popInt, Frame.pop, Heap.rawInt, Frame.advanced, frame]
  simp [bind, Except.bind, h, Except.map]

end Site

/-! ### Locals -/

/-- Locals with a slot written, with room made for it if needed. -/
def writeLocal (locals : Array Value) (slot : Nat) (v : Value) : Array Value :=
  if slot < locals.size then locals.setIfInBounds slot v
  else (locals ++ Array.replicate (slot - locals.size) Value.null).push v

lemma Frame.storeLocal_eq (f : Frame) (slot : Nat) (v : Value) :
    f.storeLocal slot v = { f with locals := writeLocal f.locals slot v } := by
  rw [storeLocal, writeLocal]
  split <;> rfl

/-- **Reading after writing**: the slot written holds the value, the others hold what they held, and
slots that were not there before hold `null`. -/
lemma getD_writeLocal (locals : Array Value) (slot other : Nat) (v : Value) :
    (writeLocal locals slot v)[other]?.getD .null
      = if other = slot then v else locals[other]?.getD .null := by
  rw [writeLocal]
  split
  · next hlt =>
      by_cases same : other = slot
      · subst same
        simp [hlt]
      · simp [same, Ne.symm same]
  · next hge =>
      have filled : locals.size + (slot - locals.size) = slot := by omega
      by_cases same : other = slot
      · subst same
        simp only [Array.getElem?_push, Array.size_append, Array.size_replicate, filled, if_true,
          Option.getD_some]
      · simp only [Array.getElem?_push, Array.size_append, Array.size_replicate, filled, same,
          if_false, Array.getElem?_append, Array.getElem?_replicate]
        split
        · rfl
        · next hge' =>
            rw [Array.getElem?_eq_none (by omega)]
            split <;> rfl

namespace Site

variable {s : Site} {pc : Nat} {stack : List Value} {locals : Array Value} {w : World}

lemma step_store {slot : Nat} {v : Value} (hi : s.code[pc]? = some (.store slot)) :
    s.Steps ⟨pc, v :: stack, locals, w⟩ 1 ⟨pc + 1, stack, writeLocal locals slot v, w⟩ := by
  refine step_of_execute hi ?_
  simp only [Frame.execute, Frame.stay, Frame.pop, Frame.advanced, frame]
  simp [bind, Except.bind, Except.map, Frame.storeLocal_eq]

/-! ## Jumps -/

/-- A jump leads to the definition of its label. -/
lemma jump_of_label {l : Label} {q : Nat} (hq : s.code[q]? = some (.label l)) (p : Point) :
    (s.frame p).jump l = .ok (s.frame { p with pc := q }) := by
  have found : s.labels.lookup l = some q := (lookup_labelTable s.located).2 hq
  simp [Frame.jump, frame, found]

lemma jumpIf_of_label {l : Label} {q : Nat} (hq : s.code[q]? = some (.label l)) (cond : Bool)
    (p : Point) :
    (s.frame p).jumpIf cond l = .ok (s.frame { p with pc := if cond then q else p.pc }) := by
  cases cond with
  | false => rfl
  | true => exact jump_of_label hq p

lemma step_jump {l : Label} {q : Nat} (hi : s.code[pc]? = some (.jump l))
    (hq : s.code[q]? = some (.label l)) :
    s.Steps ⟨pc, stack, locals, w⟩ 1 ⟨q, stack, locals, w⟩ := by
  refine step_of_execute hi ?_
  show Frame.stay w ((s.frame ⟨pc + 1, stack, locals, w⟩).jump l) = _
  rw [jump_of_label hq]
  rfl

/-- The place after a conditional jump. -/
def target (pc q : Nat) (cond : Bool) : Nat := if cond then q else pc + 1

lemma step_ifZero {l : Label} {q : Nat} {x : Int32} (hi : s.code[pc]? = some (.ifZero l))
    (hq : s.code[q]? = some (.label l)) :
    s.Steps ⟨pc, .raw x :: stack, locals, w⟩ 1 ⟨target pc q (x = 0), stack, locals, w⟩ := by
  refine step_of_execute hi ?_
  show Frame.stay w ((s.frame ⟨pc + 1, stack, locals, w⟩).jumpIf (x = 0) l) = _
  rw [jumpIf_of_label hq]
  rfl

lemma step_ifNonzero {l : Label} {q : Nat} {x : Int32}
    (hi : s.code[pc]? = some (.ifNonzero l)) (hq : s.code[q]? = some (.label l)) :
    s.Steps ⟨pc, .raw x :: stack, locals, w⟩ 1 ⟨target pc q (x ≠ 0), stack, locals, w⟩ := by
  refine step_of_execute hi ?_
  show Frame.stay w ((s.frame ⟨pc + 1, stack, locals, w⟩).jumpIf (x ≠ 0) l) = _
  rw [jumpIf_of_label hq]
  rfl

lemma step_ifInt {l : Label} {q : Nat} {cond : Cond} {x y : Int32}
    (hi : s.code[pc]? = some (.ifInt cond l)) (hq : s.code[q]? = some (.label l)) :
    s.Steps ⟨pc, .raw y :: .raw x :: stack, locals, w⟩ 1
      ⟨target pc q (cond.holds x y), stack, locals, w⟩ := by
  refine step_of_execute hi ?_
  show Frame.stay w ((s.frame ⟨pc + 1, stack, locals, w⟩).jumpIf (cond.holds x y) l) = _
  rw [jumpIf_of_label hq]
  rfl

lemma step_ifRef {l : Label} {q : Nat} {same : Bool} {a b : Value}
    (hi : s.code[pc]? = some (.ifRef same l)) (hq : s.code[q]? = some (.label l)) :
    s.Steps ⟨pc, b :: a :: stack, locals, w⟩ 1
      ⟨target pc q (a.same b == same), stack, locals, w⟩ := by
  refine step_of_execute hi ?_
  show Frame.stay w ((s.frame ⟨pc + 1, stack, locals, w⟩).jumpIf (a.same b == same) l) = _
  rw [jumpIf_of_label hq]
  rfl

end Site

/-! ## Library calls -/

/-- Number of arguments of a library method, a receiver not counted. -/
def LibraryMethod.arity : LibraryMethod → Nat
  | integerValueOf | booleanValueOf | stringEquals | arrayAdd | listInit | listCopy | listGet
  | closureInvoke | println _ => 1
  | stringSubstring | listSet | closureInit => 2
  | _ => 0

lemma LibraryMethod.arity_ref (m : LibraryMethod) : m.ref.arity = m.arity := by
  cases m with
  | println what => cases what <;> decide
  | _ => decide

/-- A call of the library takes its arguments and, unless it is static, its receiver. -/
lemma LibraryMethod.pops_invoke (m : LibraryMethod) (kind : InvokeKind) :
    (Instruction.invoke kind m.ref).pops = if kind = .static then m.arity else m.arity + 1 := by
  have links : Links default (.invoke kind m.ref) := by
    rintro _ _ ⟨⟩
    exact .inl ⟨m, rfl⟩
  rw [links.pops, m.arity_ref]

/-- A class may be called `Main`. -/
lemma apart_Main (m : LibraryMethod) : m.ref.owner ≠ "Main" := by
  cases m with
  | println what => cases what <;> decide
  | _ => decide

namespace Frame

variable {c : ClassFile} {f : Frame} {w : World} {m : LibraryMethod} {args rest : List Value}

/-- A call of a library method on a receiver. -/
lemma execute_receiver {kind : InvokeKind} (hkind : kind ≠ .static)
    (apart : m.ref.owner ≠ c.name) (hargs : args.length = m.arity) {this : Value}
    (hstack : f.stack = args.reverse ++ this :: rest) :
    f.execute c (.invoke kind m.ref) w
      = Frame.callLibrary c { f with stack := rest } w m (some this) args := by
  show f.invoke c w kind m.ref = _
  rw [invoke, m.arity_ref, ← hargs, popArgs_reverse hstack]
  cases kind with
  | static => exact absurd rfl hkind
  | virtual | special => simp [pop, callMethod, apart, LibraryMethod.resolve?_ref]

/-- A call of a library method without a receiver. -/
lemma execute_static (apart : m.ref.owner ≠ c.name) (hargs : args.length = m.arity)
    (hstack : f.stack = args.reverse ++ rest) :
    f.execute c (.invoke .static m.ref) w
      = Frame.callLibrary c { f with stack := rest } w m none args := by
  show f.invoke c w .static m.ref = _
  rw [invoke, m.arity_ref, ← hargs, popArgs_reverse hstack]
  simp [callMethod, apart, LibraryMethod.resolve?_ref]

end Frame

namespace Site

variable {s : Site} {pc : Nat} {stack : List Value} {locals : Array Value} {w : World}
  {m : LibraryMethod} {this : Value} {heap : Heap}

/-- A call on a receiver that is done with a result, or without one. -/
lemma step_call (hi : s.code[pc]? = some (.callVirtual m)) (args : List Value)
    (hargs : args.length = m.arity) {result : Option Value}
    (h : m.perform w.heap this args = .ok (.done result, heap)) {before after : List Value}
    (hbefore : before = args.reverse ++ this :: stack) (hafter : after = result.toList ++ stack) :
    s.Steps ⟨pc, before, locals, w⟩ 1 ⟨pc + 1, after, locals, { w with heap }⟩ := by
  subst hbefore hafter
  refine step_of_execute hi ?_
  rw [Instruction.callVirtual, Frame.execute_receiver (by decide) (s.apart m) hargs rfl,
    Frame.callLibrary, Option.getD_some, h]
  cases result <;> rfl

/-- A constructor call. -/
lemma step_construct (hi : s.code[pc]? = some (.construct m)) (args : List Value)
    (hargs : args.length = m.arity) (h : m.perform w.heap this args = .ok (.done none, heap))
    {before : List Value} (hbefore : before = args.reverse ++ this :: stack) :
    s.Steps ⟨pc, before, locals, w⟩ 1 ⟨pc + 1, stack, locals, { w with heap }⟩ := by
  subst hbefore
  refine step_of_execute hi ?_
  rw [Instruction.construct, Frame.execute_receiver (by decide) (s.apart m) hargs rfl,
    Frame.callLibrary, Option.getD_some, h]
  rfl

/-- A call that prints a line. -/
lemma step_print (hi : s.code[pc]? = some (.callVirtual m)) (args : List Value)
    (hargs : args.length = m.arity) {line : String}
    (h : m.perform w.heap this args = .ok (.print line, w.heap)) {before : List Value}
    (hbefore : before = args.reverse ++ this :: stack) :
    s.Steps ⟨pc, before, locals, w⟩ 1
      ⟨pc + 1, stack, locals, { w with printed := w.printed.push line }⟩ := by
  subst hbefore
  refine step_of_execute hi ?_
  rw [Instruction.callVirtual, Frame.execute_receiver (by decide) (s.apart m) hargs rfl,
    Frame.callLibrary, Option.getD_some, h]
  rfl

lemma fails_receiver {kind : InvokeKind} (hkind : kind ≠ .static)
    (hi : s.code[pc]? = some (.invoke kind m.ref)) (args : List Value)
    (hargs : args.length = m.arity) {fault : Fault}
    (h : m.perform w.heap this args = .error fault) {before : List Value}
    (hbefore : before = args.reverse ++ this :: stack) : s.Fails ⟨pc, before, locals, w⟩ fault := by
  subst hbefore
  refine fails_of_execute hi ?_
  rw [Frame.execute_receiver hkind (s.apart m) hargs rfl, Frame.callLibrary, Option.getD_some, h]

/-- Boxing a raw integer. -/
lemma step_boxInt {x : Int32} (hi : s.code[pc]? = some (.callStatic .integerValueOf)) :
    s.Steps ⟨pc, .raw x :: stack, locals, w⟩ 1 ⟨pc + 1, .integer x :: stack, locals, w⟩ := by
  refine step_of_execute hi ?_
  have hargs : [Value.raw x].length = LibraryMethod.integerValueOf.arity := rfl
  have hstack : .raw x :: stack = [Value.raw x].reverse ++ stack := rfl
  rw [Instruction.callStatic, Frame.execute_static (s.apart _) hargs hstack]
  rfl

/-- Boxing a raw truth value. -/
lemma step_boxBool {x : Int32} (hi : s.code[pc]? = some (.callStatic .booleanValueOf)) :
    s.Steps ⟨pc, .raw x :: stack, locals, w⟩ 1
      ⟨pc + 1, .boolean (x != 0) :: stack, locals, w⟩ := by
  refine step_of_execute hi ?_
  have hargs : [Value.raw x].length = LibraryMethod.booleanValueOf.arity := rfl
  have hstack : .raw x :: stack = [Value.raw x].reverse ++ stack := rfl
  rw [Instruction.callStatic, Frame.execute_static (s.apart _) hargs hstack]
  rfl

/-- Unboxing an integer. -/
lemma step_unboxInt {x : Int32} (hi : s.code[pc]? = some (.callVirtual .intValue)) :
    s.Steps ⟨pc, .integer x :: stack, locals, w⟩ 1 ⟨pc + 1, .raw x :: stack, locals, w⟩ :=
  step_call hi [] rfl rfl rfl rfl

/-- Unboxing a truth value. -/
lemma step_unboxBool {b : Bool} (hi : s.code[pc]? = some (.callVirtual .booleanValue)) :
    s.Steps ⟨pc, .boolean b :: stack, locals, w⟩ 1
      ⟨pc + 1, .raw (if b then 1 else 0) :: stack, locals, w⟩ :=
  step_call hi [] rfl rfl rfl rfl

end Site

end StackBackend
