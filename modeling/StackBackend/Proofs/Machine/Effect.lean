import StackBackend.Machine.Session
import StackBackend.Proofs.Machine.Endless
import StackBackend.Proofs.StackProfile.Arrivals

/-!
# What one instruction does to a frame

As far as the depth analysis is concerned an instruction takes operands, leaves results and says
where control goes.  `Frame.Effect` lists what can come of carrying out an instruction, seen from
there, and `execute_effect` says that nothing else can, provided the operands are there, the label
jumped to is located, and a call names a method of the library or the constructor of the class.

* `Fault.isStructural` — the faults that a check of depths and labels rules out;
* `Tame`, `perform_tame` — library methods fail for the values they are given only, break the
  machine only where there is no end to a value, and leave a result exactly if their descriptor says
  so;
* `execute_effect` — the effect of an instruction.
-/

namespace StackBackend

/-- Faults of the code itself: too few operands, a label that is not there or is there twice. -/
def Fault.isStructural : Fault → Bool
  | stackUnderflow _ | unknownLabel _ | malformed _ => true
  | _ => false

/-- A computation that fails, if at all, for another reason, and whose result is as told. -/
def Mild {α : Type} (x : Except Fault α) (Q : α → Prop) : Prop :=
  match x with
  | .ok a => Q a
  | .error e => e.isStructural = false

/-- A computation about whose result nothing is told. -/
abbrev Harmless {α : Type} (x : Except Fault α) : Prop := Mild x fun _ => True

lemma Mild.bind {α β : Type} {x : Except Fault α} {f : α → Except Fault β} {Q : α → Prop}
    {R : β → Prop} (hx : Mild x Q) (hf : ∀ a, Q a → Mild (f a) R) : Mild (x >>= f) R := by
  cases x with
  | error e => exact hx
  | ok a => exact hf a hx

lemma Harmless.bind {α β : Type} {x : Except Fault α} {f : α → Except Fault β} {R : β → Prop}
    (hx : Harmless x) (hf : ∀ a, Mild (f a) R) : Mild (x >>= f) R :=
  Mild.bind hx fun a _ => hf a

lemma Harmless.error {α : Type} {x : Except Fault α} (hx : Harmless x) {e : Fault}
    (h : x = .error e) : e.isStructural = false := by
  subst h
  exact hx

/-- Faults of values: an operation is not defined for what it is given, or, if it is an `endless`
one, does not come to an end. -/
def Fault.IsOfValues (endless : Prop) : Fault → Prop
  | typeMismatch _ _ | classCast _ _ | unknownField _ | indexOutOfBounds _ _ | stringIndex _ _ _
  | divisionByZero | nullReference _ => True
  | aborted => endless
  | _ => False

/-- A computation that fails, if at all, for the values it is given, and whose result is as told. -/
def Tame (endless : Prop) {α : Type} (x : Except Fault α) (Q : α → Prop) : Prop :=
  match x with
  | .ok a => Q a
  | .error e => e.IsOfValues endless

section

variable {endless : Prop} {α β : Type} {x : Except Fault α} {f : α → Except Fault β} {Q : α → Prop}
  {R : β → Prop}

lemma Tame.bind (hx : Tame endless x Q) (hf : ∀ a, Tame endless (f a) R) :
    Tame endless (x >>= f) R := by
  cases x with
  | error e => exact hx
  | ok a => exact hf a

lemma Tame.error (hx : Tame endless x Q) {e : Fault} (h : x = .error e) : e.IsOfValues endless := by
  subst h
  exact hx

lemma Tame.imp {endless' : Prop} (hx : Tame endless x Q) (himp : endless → endless') :
    Tame endless' x Q := by
  cases x with
  | error e =>
      change e.IsOfValues endless at hx
      show e.IsOfValues endless'
      cases e <;> simp_all [Fault.IsOfValues]
  | ok a => exact hx

lemma Tame.mild (hx : Tame endless x Q) : Mild x Q := by
  cases x with
  | error e =>
      change e.IsOfValues endless at hx
      show e.isStructural = false
      cases e <;> simp_all [Fault.IsOfValues, Fault.isStructural]
  | ok a => exact hx

lemma Tame.harmless (hx : Tame False x Q) : Harmless x := by
  cases x with
  | error e => exact hx.mild
  | ok a => trivial

end

/-! ## The library -/

namespace Heap

variable {endless : Prop}

/-- The items of a value are not found if it has none, or if there is no end to the wrappers around
them. -/
lemma tame_listItems (h : Heap) (v : Value) (expected : String) :
    Tame (Unending h.Wraps v) (h.listItems v (h.mismatch expected v)) fun _ => True := by
  rw [listItems]
  split
  · split <;> trivial
  · next hends => exact by_contra fun hwraps => hends (unwraps_iff.2 hwraps)

lemma tame_rawInt (h : Heap) (v : Value) : Tame endless (h.rawInt v) fun _ => True := by
  cases v <;> trivial

lemma tame_receiverText (h : Heap) (v : Value) :
    Tame endless (h.receiverText v) fun _ => True := by
  cases v <;> trivial

lemma tame_dereference (h : Heap) (v : Value) (place : String) :
    Tame endless (h.dereference v place) fun _ => True := by
  cases v with
  | ref address =>
      simp only [dereference]
      cases h.get? address <;> trivial
  | _ => trivial

lemma tame_construct (h : Heap) (this : Value) (obj : Obj) :
    Tame endless (h.construct this obj) fun _ => True := by
  rw [construct]
  split
  · next hd => exact (h.tame_dereference _ _).error hd
  · trivial
  · trivial

lemma tame_backing (h : Heap) (this : Value) : Tame endless (h.backing this) fun _ => True := by
  rw [backing]
  split
  · next hd => exact (h.tame_dereference _ _).error hd
  · split
    · next hd => exact (h.tame_dereference _ _).error hd
    · trivial
    · trivial
  · trivial

lemma tame_position (items : Array Value) (index : Int32) :
    Tame endless (position items index) fun _ => True := by
  rw [position]
  split
  · trivial
  · split <;> trivial

lemma tame_checkCast (h : Heap) (owner : String) (v : Value) :
    Tame endless (h.checkCast owner v) fun _ => True := by
  have passing : ∀ b : Bool, Tame endless
      (if b then .ok () else .error (.classCast owner (h.typeName v)) : Except Fault Unit)
      fun _ => True := by
    intro b
    cases b <;> trivial
  exact passing _

end Heap

section

variable {endless : Prop}

lemma tame_readStatic (field : FieldRef) : Tame endless (readStatic field) fun _ => True := by
  rw [readStatic]
  split <;> trivial

lemma tame_apply (op : IntOp) (lhs rhs : Int32) :
    Tame endless (op.apply lhs rhs) fun _ => True := by
  cases op with
  | div | rem =>
      simp only [IntOp.apply]
      split <;> trivial
  | _ => trivial

end

namespace LibraryMethod

open Heap

/-- Whether a call of a method leaves a result. -/
def returnsValue : LibraryMethod → Bool
  | objectInit | arrayInit | listInit | listCopy | listSet | closureInit | println _ => false
  | _ => true

/-- The descriptor says whether there is a result. -/
lemma returnsValue_ref (m : LibraryMethod) : m.ref.returnsValue = m.returnsValue := by
  cases m with
  | println what => cases what <;> decide
  | _ => decide

/-- A reply that fits a method: it has a result, or calls for one, exactly if the method does. -/
def Fits (m : LibraryMethod) : Reply → Prop
  | .done result => result.isSome = m.returnsValue
  | .print _ => m.returnsValue = false
  | .apply _ _ _ => m.returnsValue = true

/-- **Library calls fail for what the values are, never for how many there are**, and they leave a
result exactly if they should. -/
lemma perform_tame (h : Heap) (m : LibraryMethod) (this : Value) (args : List Value) :
    Tame (m.Unending h this args) (m.perform h this args) fun reply => m.Fits reply.1 := by
  cases m with
  | objectInit => rfl
  | integerValueOf | booleanValueOf => exact (tame_rawInt h _).bind fun _ => rfl
  | intValue | booleanValue =>
      simp only [perform]
      split <;> trivial
  | stringLength | stringEquals => exact (tame_receiverText h this).bind fun _ => rfl
  | stringSubstring =>
      refine (tame_receiverText h this).bind fun _ => (tame_rawInt h _).bind fun _ =>
        (tame_rawInt h _).bind fun _ => ?_
      split <;> trivial
  | println what =>
      refine Tame.bind (Q := fun _ => True) ?_ fun _ => rfl
      cases what with
      | int | bool => exact (tame_rawInt h _).bind fun _ => trivial
      | text | object =>
          simp only [printedLine]
          split
          · trivial
          · next hnone => exact textOf?_eq_none_iff.1 hnone
  | arrayInit => exact (tame_construct h _ _).bind fun _ => rfl
  | arrayAdd =>
      simp only [perform]
      split
      · next hd => exact (tame_dereference h _ _).error hd
      · rfl
      · trivial
  | listInit | closureInit =>
      simp only [perform]
      split
      · exact (tame_construct _ _ _).bind fun _ => rfl
      · trivial
  | listCopy =>
      exact (tame_listItems h _ _).bind fun _ => (tame_construct _ _ _).bind fun _ => rfl
  | listGet | listSet =>
      exact (tame_rawInt h _).bind fun _ => (tame_backing h this).bind fun _ =>
        (tame_position _ _).bind fun _ => rfl
  | listSize => exact (tame_listItems h this _).bind fun _ => rfl
  | closureInvoke =>
      simp only [perform]
      split
      · next receiver name hclosure =>
          refine Tame.bind (Q := fun _ => True) ?_ fun _ => rfl
          exact (tame_listItems h _ _).imp fun hwraps => ⟨⟨receiver, name, hclosure⟩, hwraps⟩
      · trivial

end LibraryMethod

/-! ## Frames -/

namespace Frame

/-- `f'` is `f` after an instruction, as far as depth and place are concerned. -/
structure Goes (f : Frame) (i : Instruction) (f' : Frame) : Prop where
  code : f'.code = f.code
  labels : f'.labels = f.labels
  use : f'.use = f.use
  height : f'.stack.length = i.depthAfter f.stack.length
  place : (i.endsBlock = false ∧ f'.pc = f.pc) ∨
    ∃ l, i.target? = some l ∧ f.labels.lookup l = some f'.pc

/-- A frame at the start of a method. -/
structure Enters (f : Frame) (m : Method) : Prop where
  code : f.code = m.code
  labels : labelTable m.code = .ok f.labels
  pc : f.pc = 0
  stack : f.stack = []

/-- **What can come of an instruction.** -/
inductive Effect (c : ClassFile) (f : Frame) (i : Instruction) : Control → Prop
  | next {f' : Frame} : f.Goes i f' → Effect c f i (.next f')
  | leave {f' : Frame} {result : Option Value} : f'.use = f.use →
      (result.isSome = true → i = .retValue) → Effect c f i (.leave f' result)
  /-- A function pointer is called: its result, or `null`, will be pushed. -/
  | call {caller callee : Frame} {m : Method} : m ∈ c.methods → callee.Enters m →
      callee.use = .orNull → (∀ v, f.Goes i (caller.push v)) → Effect c f i (.enter caller callee)
  /-- The constructor is called: it has no result. -/
  | construct {caller callee : Frame} {m : Method} : m ∈ c.methods → m.name = constructorName →
      callee.Enters m → callee.use = .ifAny → f.Goes i caller → Effect c f i (.enter caller callee)

lemma takeArgs_eq {count : Nat} {stack : List Value} (h : count ≤ stack.length)
    (taken : List Value) :
    takeArgs count taken stack = some ((stack.take count).reverse ++ taken, stack.drop count) := by
  induction count generalizing taken stack with
  | zero => simp [takeArgs]
  | succ count ih =>
      cases stack with
      | nil => simp at h
      | cons v stack =>
          rw [takeArgs, ih (by simpa using h)]
          simp

lemma popArgs_reverse {f : Frame} {args rest : List Value}
    (hstack : f.stack = args.reverse ++ rest) :
    f.popArgs args.length = .ok (args, { f with stack := rest }) := by
  have enough : args.length ≤ f.stack.length := by simp [hstack]
  rw [popArgs, takeArgs_eq enough, hstack]
  simp

end Frame

/-- What the depth analysis expects of calls: operands are methods of the library, or the
constructor of the class. -/
def Links (c : ClassFile) (i : Instruction) : Prop :=
  ∀ kind method, i = .invoke kind method →
    (∃ m : LibraryMethod, method = m.ref) ∨ method = ⟨c.name, constructorName, "()V"⟩

/-- The operands of such a call can be counted. -/
lemma Links.pops {c : ClassFile} {kind : InvokeKind} {method : MethodRef}
    (h : Links c (.invoke kind method)) : (Instruction.invoke kind method).pops =
      if kind = .static then method.arity else method.arity + 1 := by
  have few : method.arity % (depthLimit + 1) = method.arity := by
    refine Nat.mod_eq_of_lt ?_
    rcases h kind method rfl with ⟨m, rfl⟩ | rfl
    · cases m with
      | println what => cases what <;> decide
      | _ => decide
    · show Descriptor.arity "()V" < depthLimit + 1
      decide
  cases kind <;> simp [Instruction.pops, few]

/-- A class whose methods have their labels located and whose name is not one of the library's. -/
structure Located (c : ClassFile) : Prop where
  apart : ∀ m : LibraryMethod, m.ref.owner ≠ c.name
  labels : ∀ m ∈ c.methods, ∃ labels, labelTable m.code = .ok labels

namespace Frame

variable {c : ClassFile}

/-- Calling a method of the class opens a frame for it. -/
lemma callOwn_mild (hc : Located c) (f : Frame) (w : World) (name : String)
    (receiver : Option Value) (args : List Value) (use : ResultUse) :
    Mild (f.callOwn c w name receiver args use).1 fun control =>
      ∃ m callee, m ∈ c.methods ∧ m.name = name ∧ control = .enter f callee ∧ callee.Enters m ∧
        callee.use = use := by
  rw [callOwn]
  cases hm : c.method? name with
  | none => simp [ClassFile.resolve, hm, Mild, Fault.isStructural]
  | some m =>
      have hmem : m ∈ c.methods := List.mem_of_find?_eq_some hm
      have hname : m.name = name := by simpa using List.find?_some hm
      obtain ⟨labels, hlabels⟩ := hc.labels m hmem
      simp only [ClassFile.resolve, hm, Frame.call]
      split
      · next he =>
          split at he
          · simp only [Except.error.injEq] at he
            subst he
            rfl
          · simp [hlabels] at he
      · next callee hcallee =>
          split at hcallee
          · simp at hcallee
          · simp only [hlabels, Except.ok.injEq] at hcallee
            subst hcallee
            exact ⟨m, _, hmem, hname, rfl, ⟨rfl, hlabels, rfl, rfl⟩, rfl⟩

/-- `f'` is `f` without the operands of an instruction. -/
structure Popped (f : Frame) (i : Instruction) (f' : Frame) : Prop where
  code : f'.code = f.code
  labels : f'.labels = f.labels
  use : f'.use = f.use
  pc : f'.pc = f.pc
  height : f'.stack.length = f.stack.length - i.pops

/-- A frame goes on past an instruction when it has popped its operands and pushed its results. -/
lemma Popped.goes {f f' f'' : Frame} {i : Instruction} (h : f.Popped i f')
    (hends : i.endsBlock = false) (hcode : f''.code = f'.code) (hlabels : f''.labels = f'.labels)
    (huse : f''.use = f'.use) (hpc : f''.pc = f'.pc)
    (hheight : f''.stack.length = f'.stack.length + i.pushes) : f.Goes i f'' where
  code := hcode.trans h.code
  labels := hlabels.trans h.labels
  use := huse.trans h.use
  height := by rw [hheight, h.height, Instruction.depthAfter]
  place := .inl ⟨hends, hpc.trans h.pc⟩

lemma callLibrary_mild (hc : Located c) {f f' : Frame} {kind : InvokeKind} {m : LibraryMethod}
    (hpopped : f.Popped (.invoke kind m.ref) f') (w : World) (receiver : Option Value)
    (args : List Value) :
    Mild (f'.callLibrary c w m receiver args).1 (f.Effect c (.invoke kind m.ref)) := by
  have hpushes : (Instruction.invoke kind m.ref).pushes = if m.returnsValue then 1 else 0 := by
    rw [Instruction.pushes, LibraryMethod.returnsValue_ref]
  have hperform := (m.perform_tame w.heap (receiver.getD .null) args).mild
  rw [callLibrary]
  split
  · next he =>
      rw [he] at hperform
      exact hperform
  · next result heap hr =>
      rw [hr] at hperform
      cases result with
      | none =>
          have hfits : false = m.returnsValue := hperform
          exact .next (hpopped.goes rfl rfl rfl rfl rfl (by simp [receive, hpushes, ← hfits]))
      | some v =>
          have hfits : true = m.returnsValue := hperform
          exact .next (hpopped.goes rfl rfl rfl rfl rfl (by simp [receive, push, hpushes, ← hfits]))
  · next hr =>
      rw [hr] at hperform
      have hfits : m.returnsValue = false := hperform
      exact .next (hpopped.goes rfl rfl rfl rfl rfl (by simp [hpushes, hfits]))
  · next this name args heap hr =>
      rw [hr] at hperform
      have hfits : m.returnsValue = true := hperform
      have hcall := callOwn_mild hc f' { w with heap } name (some this) args .orNull
      generalize (f'.callOwn c { w with heap } name (some this) args .orNull).1 = called at hcall
      cases called with
      | error e => exact hcall
      | ok control =>
          obtain ⟨method, callee, hmem, -, rfl, henters, huse⟩ := hcall
          refine .call hmem henters huse fun v => hpopped.goes rfl rfl rfl rfl rfl ?_
          simp [push, hpushes, hfits]

/-- Calling the constructor of the class. -/
lemma callMember_mild (hc : Located c) {f f' : Frame} {kind : InvokeKind}
    (hpopped : f.Popped (.invoke kind ⟨c.name, constructorName, "()V"⟩) f') (w : World)
    (receiver : Option Value) (args : List Value) :
    Mild (f'.callMember c w constructorName receiver args).1
      (f.Effect c (.invoke kind ⟨c.name, constructorName, "()V"⟩)) := by
  have hpushes : (Instruction.invoke kind ⟨c.name, constructorName, "()V"⟩).pushes = 0 := by
    show (if Descriptor.returnsValue "()V" then 1 else 0) = 0
    decide
  have entered : ∀ w, Mild (f'.callOwn c w constructorName receiver args .ifAny).1
      (f.Effect c (.invoke kind ⟨c.name, constructorName, "()V"⟩)) := by
    intro w
    have hcall := callOwn_mild hc f' w constructorName receiver args .ifAny
    generalize (f'.callOwn c w constructorName receiver args .ifAny).1 = called at hcall
    cases called with
    | error e => exact hcall
    | ok control =>
        obtain ⟨m, callee, hmem, hname, rfl, henters, huse⟩ := hcall
        exact .construct hmem hname henters huse
          (hpopped.goes rfl rfl rfl rfl rfl (by rw [hpushes, Nat.add_zero]))
  cases receiver with
  | none => exact entered w
  | some this =>
      simp only [callMember, if_true]
      split
      · next he =>
          rw [ClassFile.resolve] at he
          split at he
          · simp at he
          · simp only [Except.error.injEq] at he
            subst he
            rfl
      · split
        · next he => exact (w.heap.tame_construct _ _).harmless.error he
        · exact entered _

/-- **The effect of a call.** -/
lemma invoke_mild (hc : Located c) {f : Frame} {kind : InvokeKind} {method : MethodRef}
    (hpops : (Instruction.invoke kind method).pops ≤ f.stack.length)
    (hlinks : Links c (.invoke kind method)) (w : World) :
    Mild (f.invoke c w kind method).1 (f.Effect c (.invoke kind method)) := by
  have called : ∀ f' : Frame, f.Popped (.invoke kind method) f' → ∀ receiver args,
      Mild (f'.callMethod c w method receiver args).1 (f.Effect c (.invoke kind method)) := by
    intro f' hpopped receiver args
    rw [callMethod]
    rcases hlinks kind method rfl with ⟨m, rfl⟩ | rfl
    · simp only [if_neg (hc.apart m), LibraryMethod.resolve?_ref]
      exact callLibrary_mild hc hpopped w receiver args
    · simp only [if_true]
      exact callMember_mild hc hpopped w receiver args
  have hcount : method.arity ≤ f.stack.length := by
    refine Nat.le_trans ?_ hpops
    rw [hlinks.pops]
    split <;> omega
  rw [invoke, popArgs, takeArgs_eq hcount]
  simp only
  split
  · exact called { f with stack := f.stack.drop method.arity }
      ⟨rfl, rfl, rfl, rfl, by simp [hlinks.pops]⟩ _ _
  · next hkind =>
      have hwhole : (Instruction.invoke kind method).pops = method.arity + 1 := by
        rw [hlinks.pops, if_neg fun h => hkind h]
      cases hrest : f.stack.drop method.arity with
      | nil =>
          have hlength := congrArg List.length hrest
          rw [List.length_drop, List.length_nil] at hlength
          omega
      | cons this rest =>
          have hlength := congrArg List.length hrest
          rw [List.length_drop, List.length_cons] at hlength
          exact called { f with stack := rest } ⟨rfl, rfl, rfl, rfl, by simp only; omega⟩ _ _

/-! ### Instructions -/

lemma mild_stay {f : Frame} {i : Instruction} {x : Except Fault Frame} (w : World)
    (hx : Mild x (f.Goes i)) : Mild (stay w x).1 (f.Effect c i) := by
  cases x with
  | error e => exact hx
  | ok f' => exact .next hx

lemma exists_top {f : Frame} (h : 1 ≤ f.stack.length) :
    ∃ v rest, f.stack = v :: rest ∧ f.pop = .ok (v, { f with stack := rest }) := by
  cases hs : f.stack with
  | nil => simp [hs] at h
  | cons v rest => exact ⟨v, rest, rfl, by simp [pop, hs]⟩

lemma exists_two {f : Frame} (h : 2 ≤ f.stack.length) :
    ∃ a b rest, f.stack = a :: b :: rest := by
  match hs : f.stack with
  | [] | [_] => simp [hs] at h
  | a :: b :: rest => exact ⟨a, b, rest, rfl⟩

lemma exists_storeLocal (f : Frame) (slot : Nat) (v : Value) :
    ∃ locals, f.storeLocal slot v = { f with locals } := by
  rw [storeLocal]
  split
  · exact ⟨_, rfl⟩
  · exact ⟨_, rfl⟩

lemma popInt_mild {f : Frame} (heap : Heap) {n : Nat} (h : n + 1 = f.stack.length) :
    Mild (f.popInt heap) fun r => ∃ rest, r.2 = { f with stack := rest } ∧ rest.length = n := by
  obtain ⟨v, rest, hs, hpop⟩ := exists_top (f := f) (by omega)
  have hint := (heap.tame_rawInt v).harmless
  simp only [popInt, hpop]
  cases hv : heap.rawInt v with
  | error e => exact hint.error hv
  | ok value => exact ⟨rest, rfl, by simpa [hs, eq_comm] using h⟩

/-- A jump keeps everything but the place. -/
lemma jump_mild {f f' : Frame} {i : Instruction} {target : Label} {q : Nat}
    (htarget : i.target? = some target) (hq : f.labels.lookup target = some q)
    (hpopped : f.Popped i f') (hpushes : i.pushes = 0) : Mild (f'.jump target) (f.Goes i) := by
  have hq' : f'.labels.lookup target = some q := by rw [hpopped.labels, hq]
  rw [jump, hq']
  refine ⟨hpopped.code, hpopped.labels, hpopped.use, ?_, .inr ⟨target, htarget, hq⟩⟩
  rw [Instruction.depthAfter, hpushes, Nat.add_zero]
  exact hpopped.height

lemma jumpIf_mild {f f' : Frame} {i : Instruction} {target : Label} {q : Nat}
    (htarget : i.target? = some target) (hq : f.labels.lookup target = some q)
    (hpopped : f.Popped i f') (hpushes : i.pushes = 0) (hends : i.endsBlock = false) (cond : Bool) :
    Mild (f'.jumpIf cond target) (f.Goes i) := by
  cases cond with
  | true => exact jump_mild htarget hq hpopped hpushes
  | false => exact hpopped.goes hends rfl rfl rfl rfl (by rw [hpushes, Nat.add_zero])

/-- **The effect of an instruction.** -/
theorem execute_mild (hc : Located c) {f : Frame} {i : Instruction}
    (hpops : i.pops ≤ f.stack.length)
    (hlabel : ∀ l, i.target? = some l → ∃ q, f.labels.lookup l = some q) (hlinks : Links c i)
    (w : World) : Mild (f.execute c i w).1 (f.Effect c i) := by
  have popped : ∀ (i : Instruction) (rest : List Value),
      rest.length = f.stack.length - i.pops → f.Popped i { f with stack := rest } :=
    fun i rest h => ⟨rfl, rfl, rfl, rfl, h⟩
  have untouched : i.pops = 0 → f.Popped i f :=
    fun h => ⟨rfl, rfl, rfl, rfl, by rw [h, Nat.sub_zero]⟩
  cases i with
  | label _ => exact .next ((untouched rfl).goes rfl rfl rfl rfl rfl rfl)
  | load _ | zero | new _ => exact .next ((untouched rfl).goes rfl rfl rfl rfl rfl rfl)
  | ldc constant =>
      cases constant <;> exact .next ((untouched rfl).goes rfl rfl rfl rfl rfl rfl)
  | ret => exact .leave rfl (by simp)
  | retValue =>
      obtain ⟨v, rest, hs, hpop⟩ := exists_top hpops
      simp only [execute, hpop]
      exact .leave rfl fun _ => rfl
  | invoke kind method => exact invoke_mild hc hpops hlinks w
  | getStatic field =>
      refine mild_stay w ((tame_readStatic field).harmless.bind fun v => ?_)
      exact (untouched rfl).goes rfl rfl rfl rfl rfl rfl
  | store slot =>
      obtain ⟨v, rest, hs, hpop⟩ := exists_top hpops
      obtain ⟨locals, hstore⟩ := exists_storeLocal { f with stack := rest } slot v
      refine mild_stay w ?_
      simp only [hpop, bind, Except.bind, hstore]
      exact (popped (.store slot) rest (by simp [hs, Instruction.pops])).goes rfl rfl rfl
        rfl rfl rfl
  | dup =>
      obtain ⟨v, rest, hs, hpop⟩ := exists_top hpops
      refine mild_stay w ?_
      simp only [hpop, bind, Except.bind]
      exact (popped .dup rest (by simp [hs, Instruction.pops])).goes rfl rfl rfl rfl rfl rfl
  | pop =>
      obtain ⟨v, rest, hs, hpop⟩ := exists_top hpops
      refine mild_stay w ?_
      simp only [hpop, bind, Except.bind]
      exact (popped .pop rest (by simp [hs, Instruction.pops])).goes rfl rfl rfl rfl rfl rfl
  | cast owner =>
      obtain ⟨v, rest, hs, hpop⟩ := exists_top hpops
      refine mild_stay w ?_
      simp only [hpop]
      refine (w.heap.tame_checkCast owner v).harmless.bind fun _ => ?_
      exact (popped (.cast owner) rest (by simp [hs, Instruction.pops])).goes rfl rfl rfl rfl rfl
        (by simp [hs, Instruction.pushes])
  | swap =>
      obtain ⟨a, b, rest, hs⟩ := exists_two hpops
      refine mild_stay w ?_
      simp only [pop, hs, bind, Except.bind]
      exact (popped .swap rest (by simp [hs, Instruction.pops])).goes rfl rfl rfl rfl rfl rfl
  | neg =>
      simp only [Instruction.pops] at hpops
      refine mild_stay w ((popInt_mild w.heap (n := f.stack.length - 1) (by omega)).bind ?_)
      rintro ⟨value, _⟩ ⟨rest, rfl, hrest⟩
      exact (popped .neg rest hrest).goes rfl rfl rfl rfl rfl rfl
  | arith op =>
      simp only [Instruction.pops] at hpops
      refine mild_stay w ((popInt_mild w.heap (n := f.stack.length - 1) (by omega)).bind ?_)
      rintro ⟨rhs, _⟩ ⟨rest, rfl, hrest⟩
      refine (popInt_mild w.heap (n := f.stack.length - 2) (by simp only; omega)).bind ?_
      rintro ⟨lhs, _⟩ ⟨rest', rfl, hrest'⟩
      refine (tame_apply op lhs rhs).harmless.bind fun value => ?_
      exact (popped (.arith op) rest' hrest').goes rfl rfl rfl rfl rfl rfl
  | jump target =>
      obtain ⟨q, hq⟩ := hlabel target rfl
      exact mild_stay w (jump_mild rfl hq (untouched rfl) rfl)
  | ifZero target =>
      obtain ⟨q, hq⟩ := hlabel target rfl
      simp only [Instruction.pops] at hpops
      refine mild_stay w ((popInt_mild w.heap (n := f.stack.length - 1) (by omega)).bind ?_)
      rintro ⟨value, _⟩ ⟨rest, rfl, hrest⟩
      exact jumpIf_mild rfl hq (popped (.ifZero target) rest hrest) rfl rfl _
  | ifNonzero target =>
      obtain ⟨q, hq⟩ := hlabel target rfl
      simp only [Instruction.pops] at hpops
      refine mild_stay w ((popInt_mild w.heap (n := f.stack.length - 1) (by omega)).bind ?_)
      rintro ⟨value, _⟩ ⟨rest, rfl, hrest⟩
      exact jumpIf_mild rfl hq (popped (.ifNonzero target) rest hrest) rfl rfl _
  | ifInt cond target =>
      obtain ⟨q, hq⟩ := hlabel target rfl
      simp only [Instruction.pops] at hpops
      refine mild_stay w ((popInt_mild w.heap (n := f.stack.length - 1) (by omega)).bind ?_)
      rintro ⟨rhs, _⟩ ⟨rest, rfl, hrest⟩
      refine (popInt_mild w.heap (n := f.stack.length - 2) (by simp only; omega)).bind ?_
      rintro ⟨lhs, _⟩ ⟨rest', rfl, hrest'⟩
      exact jumpIf_mild rfl hq (popped (.ifInt cond target) rest' hrest') rfl rfl _
  | ifRef same target =>
      obtain ⟨q, hq⟩ := hlabel target rfl
      obtain ⟨a, b, rest, hs⟩ := exists_two hpops
      refine mild_stay w ?_
      simp only [pop, hs, bind, Except.bind]
      exact jumpIf_mild rfl hq (popped (.ifRef same target) rest (by simp [hs, Instruction.pops]))
        rfl rfl _

end Frame

end StackBackend
