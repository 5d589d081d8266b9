import StackBackend.Proofs.Machine.Moves
import StackBackend.Proofs.Storage.Instructions

/-!
# What an instruction can do, whatever the code

Other files follow instructions that the compiler emits.  This one assumes nothing about the class,
the code or the heap, and lists once what carrying out an instruction can lead to.

* `Heap.Change c stack h i h'` — the ways an instruction can change the heap, with the operands it
  does so for.  There are few: an object is made, an object is initialized, a list is put around a
  copy, an array grows by one item, an item of a list is replaced;
* `Frame.Transition c f h i control` — the ways control can go on, and which frames it goes on with;
* `Frame.execute_change`, `Frame.execute_transition` — there are no others.  The heap changes in one
  of these ways even if the instruction fails;
* `Frame.depth_execute` — the count of open calls after an instruction.
-/

namespace StackBackend

/-! ## Operands of calls -/

namespace Frame

lemma takeArgs_ok {count : Nat} {taken stack args rest : List Value}
    (h : takeArgs count taken stack = some (args, rest)) :
    ∃ ops, ops.length = count ∧ stack = ops ++ rest ∧ args = ops.reverse ++ taken := by
  induction count generalizing taken stack with
  | zero =>
      obtain ⟨rfl, rfl⟩ : taken = args ∧ stack = rest := by simpa [takeArgs] using h
      exact ⟨[], rfl, rfl, rfl⟩
  | succ count ih =>
      cases stack with
      | nil => simp [takeArgs] at h
      | cons v stack =>
          obtain ⟨ops, hlength, rfl, rfl⟩ := ih h
          exact ⟨v :: ops, by simp [hlength], rfl, by simp⟩

variable {c : ClassFile} {f : Frame} {w : World}

/-- **A call takes its arguments and its receiver off the stack**, or finds too few operands. -/
lemma invoke_split (kind : InvokeKind) (method : MethodRef) :
    f.invoke c w kind method = (.error f.underflow, w) ∨
      ∃ receiver args rest, f.stack = args.reverse ++ Option.toList receiver ++ rest ∧
        args.length = method.arity ∧ (receiver = none ↔ kind = .static) ∧
        f.invoke c w kind method =
          callMethod c { f with stack := rest } w method receiver args := by
  rw [invoke, popArgs]
  cases htaken : takeArgs method.arity [] f.stack with
  | none => exact .inl rfl
  | some taken =>
      obtain ⟨args, rest⟩ := taken
      obtain ⟨ops, hlength, hstack, rfl⟩ := takeArgs_ok htaken
      rw [List.append_nil] at htaken ⊢
      cases kind with
      | static => exact .inr ⟨none, ops.reverse, rest, by simp [hstack], by simpa, by simp, rfl⟩
      | virtual | special =>
          cases rest with
          | nil => exact .inl rfl
          | cons this rest =>
              exact .inr ⟨some this, ops.reverse, rest, by simp [hstack], by simpa, by simp, rfl⟩

end Frame

/-- An operand names a library method by its own descriptor, printing apart. -/
lemma LibraryMethod.eq_ref_of_resolve? {method : MethodRef} {m : LibraryMethod}
    (h : resolve? method = some m) : method = m.ref ∨ ∃ what, m = .println what := by
  rw [resolve?] at h
  split at h
  · exact .inr ⟨_, by simpa [eq_comm] using h⟩
  · exact .inl (by simpa [eq_comm] using List.find?_some h)

/-! ## The heap -/

/-- What a constructor, called with the operands `stack`, makes of the object at `a`. -/
inductive Heap.Builds (c : ClassFile) (h : Heap) (stack : List Value) (a : Nat) :
    Instruction → Obj → Prop
  | array {kind : InvokeKind} {rest : List Value} : stack = .ref a :: rest →
      Builds c h stack a (.invoke kind LibraryMethod.arrayInit.ref) (.array #[])
  | list {kind : InvokeKind} {b : Nat} {items : Array Value} {rest : List Value} :
      stack = .ref b :: .ref a :: rest → h.get? b = some (.array items) →
      Builds c h stack a (.invoke kind LibraryMethod.listInit.ref) (.list (.ref b))
  | closure {kind : InvokeKind} {ident : Nat} {name : String} {receiver : Value}
      {rest : List Value} : stack = .text ident name :: receiver :: .ref a :: rest →
      Builds c h stack a (.invoke kind LibraryMethod.closureInit.ref) (.closure receiver name)
  /-- The constructor of the running class, with any number of arguments. -/
  | inst {kind : InvokeKind} {method : MethodRef} {args rest : List Value} :
      method.owner = c.name → method.name = constructorName →
      stack = args.reverse ++ .ref a :: rest → args.length = method.arity →
      Builds c h stack a (.invoke kind method) (.inst c.name)

/-- **What an instruction can do to the heap**, with the operands `stack`. -/
inductive Heap.Change (c : ClassFile) (h : Heap) (stack : List Value) : Instruction → Heap → Prop
  | none {i : Instruction} : Change c h stack i h
  | text {i : Instruction} (content : String) : Change c h stack i (h.newText content).2
  | make (owner : String) : Change c h stack (.new owner) (h.alloc (.uninit owner)).2
  | init {i : Instruction} {a : Nat} {owner : String} {obj : Obj} :
      h.get? a = some (.uninit owner) → h.Builds c stack a i obj →
      Change c h stack i (h.set a obj)
  | copy {kind : InvokeKind} {a : Nat} {owner : String} {source : Value} {items : Array Value}
      {rest : List Value} : stack = source :: .ref a :: rest →
      h.get? a = some (.uninit owner) → h.items? source = some items →
      Change c h stack (.invoke kind LibraryMethod.listCopy.ref) (h.wrapCopy a items)
  | add {kind : InvokeKind} {a : Nat} {items : Array Value} {v : Value} {rest : List Value} :
      stack = v :: .ref a :: rest → h.get? a = some (.array items) →
      Change c h stack (.invoke kind LibraryMethod.arrayAdd.ref)
        (h.set a (.array (items.push v)))
  | assign {kind : InvokeKind} {l a place : Nat} {index : Int32} {items : Array Value} {v : Value}
      {rest : List Value} : stack = v :: .raw index :: .ref l :: rest →
      h.get? l = some (.list (.ref a)) → h.get? a = some (.array items) →
      position items index = .ok place →
      Change c h stack (.invoke kind LibraryMethod.listSet.ref)
        (h.set a (.array (items.setIfInBounds place v)))

namespace LibraryMethod

open Heap

variable {c : ClassFile} {h h' : Heap} {kind : InvokeKind} {reply : Reply}

/-- **The library changes the heap in these ways only.** -/
lemma perform_change {m : LibraryMethod} {receiver : Option Value} {args stack rest : List Value}
    (hperform : m.perform h (receiver.getD .null) args = .ok (reply, h'))
    (hstack : stack = args.reverse ++ receiver.toList ++ rest) (hargs : args.length = m.arity) :
    h.Change c stack (.invoke kind m.ref) h' := by
  -- methods that change an object are called on a reference
  have called : ∀ {a : Nat}, receiver.getD .null = .ref a →
      stack = args.reverse ++ .ref a :: rest := by
    intro a ha
    cases receiver with
    | none => simp at ha
    | some this =>
        obtain rfl : this = .ref a := ha
        simp [hstack]
  cases performs_of_perform hperform with
  | plain | print | get | apply => exact .none
  | text content => exact .text content
  | array hthis hold =>
      obtain rfl := List.length_eq_zero_iff.1 hargs
      exact .init hold (.array (called hthis))
  | @closure a ident owner name hthis hold hname =>
      obtain ⟨x, y, rfl⟩ := List.length_eq_two.1 hargs
      obtain rfl : y = .text ident name := hname
      exact .init hold (.closure (called hthis))
  | @list a b owner items hthis hold hb hitems =>
      obtain ⟨x, rfl⟩ := List.length_eq_one_iff.1 hargs
      obtain rfl : x = .ref b := hb
      exact .init hold (.list (called hthis) hitems)
  | copy hthis hold hitems =>
      obtain ⟨x, rfl⟩ := List.length_eq_one_iff.1 hargs
      exact .copy (called hthis) hold hitems
  | add hthis hitems =>
      obtain ⟨x, rfl⟩ := List.length_eq_one_iff.1 hargs
      exact .add (called hthis) hitems
  | @assign l b place index items hthis hlist hitems hindex hplace =>
      obtain ⟨x, y, rfl⟩ := List.length_eq_two.1 hargs
      obtain rfl : x = .raw index := hindex
      exact .assign (called hthis) hlist hitems hplace

/-- Calling a function pointer finds one, and applies what it holds. -/
lemma perform_closureInvoke {this receiver : Value} {args items : List Value} {name : String}
    (hperform : closureInvoke.perform h this args = .ok (.apply receiver name items, h')) :
    ∃ a, h.get? a = some (.closure receiver name) := by
  cases performs_of_perform hperform with
  | apply _ hclosure _ => exact ⟨_, hclosure⟩

/-- Printing leaves the heap as it is, whatever the operand says about it. -/
lemma perform_println {what : Printed} {this : Value} {args : List Value}
    (hperform : (println what).perform h this args = .ok (reply, h')) : h' = h := by
  cases performs_of_perform hperform with
  | plain | print => rfl

end LibraryMethod

namespace Frame

open Heap

variable {c : ClassFile} {f : Frame} {w : World}

lemma callMember_change {method : MethodRef} {kind : InvokeKind} {receiver : Option Value}
    {args stack rest : List Value} (howner : method.owner = c.name)
    (hstack : stack = args.reverse ++ receiver.toList ++ rest)
    (hargs : args.length = method.arity) :
    w.heap.Change c stack (.invoke kind method)
      (f.callMember c w method.name receiver args).2.heap := by
  cases receiver with
  | none =>
      rw [callMember, heap_callOwn]
      exact .none
  | some this =>
      rw [callMember]
      split
      · next hname =>
          split
          · exact .none
          · split
            · exact .none
            · next heap hc =>
                -- the receiver is marked even if the constructor cannot be entered
                rw [heap_callOwn]
                obtain ⟨a, owner, rfl, hold, rfl⟩ := construct_ok hc
                exact .init hold (.inst howner hname (by simpa using hstack) hargs)
      · rw [heap_callOwn]
        exact .none

lemma callLibrary_change {m : LibraryMethod} {kind : InvokeKind} {method : MethodRef}
    (hresolve : LibraryMethod.resolve? method = some m) {receiver : Option Value}
    {args stack rest : List Value} (hstack : stack = args.reverse ++ receiver.toList ++ rest)
    (hargs : args.length = method.arity) :
    w.heap.Change c stack (.invoke kind method) (f.callLibrary c w m receiver args).2.heap := by
  have performed : ∀ {reply : Reply} {heap : Heap},
      m.perform w.heap (receiver.getD .null) args = .ok (reply, heap) →
      w.heap.Change c stack (.invoke kind method) heap := by
    intro reply heap hperform
    rcases LibraryMethod.eq_ref_of_resolve? hresolve with rfl | ⟨what, rfl⟩
    · exact LibraryMethod.perform_change hperform hstack (by rw [hargs, m.arity_ref])
    · rw [LibraryMethod.perform_println hperform]
      exact .none
  rw [callLibrary]
  split
  · exact .none
  · next hperform => exact performed hperform
  · next hperform => exact performed hperform
  · next hperform =>
      rw [heap_callOwn]
      exact performed hperform

/-- **Every instruction changes the heap in one of these ways**, whether it fails or not. -/
theorem execute_change (c : ClassFile) (f : Frame) (i : Instruction) (w : World) :
    w.heap.Change c f.stack i (f.execute c i w).2.heap := by
  cases i with
  | invoke kind method =>
      rw [execute]
      rcases f.invoke_split (c := c) (w := w) kind method with
        hshort | ⟨receiver, args, rest, hstack, hargs, -, hcall⟩
      · rw [hshort]
        exact .none
      · rw [hcall, callMethod]
        split
        · next howner => exact callMember_change howner hstack hargs
        · split
          · next m hresolve => exact callLibrary_change hresolve hstack hargs
          · exact .none
  | ldc constant =>
      cases constant with
      | int value => exact .none
      | str content => exact .text content
  | new owner => exact .make owner
  | retValue =>
      rw [execute]
      split <;> exact .none
  | _ => exact .none

end Frame

/-! ## Control -/

namespace Frame

/-- `f'` is `f` after an instruction that stays in the frame: the place is the next one or that of
the label it names, and no slot has changed but the one stored to. -/
structure Continues (f : Frame) (i : Instruction) (f' : Frame) : Prop where
  method : f'.method = f.method
  code : f'.code = f.code
  labels : f'.labels = f.labels
  place : f'.pc = f.pc ∨ ∃ l, i.target? = some l ∧ f.labels.lookup l = some f'.pc
  locals : ∀ slot, i ≠ .store slot →
    f'.locals[slot]?.getD .null = f.locals[slot]?.getD .null

/-- **How control can go on after an instruction**, in a world. -/
inductive Transition (c : ClassFile) (f : Frame) (w : World) (i : Instruction) : Control → Prop
  | next {f' : Frame} : f.Continues i f' → Transition c f w i (.next f')
  /-- A function pointer is called. -/
  | apply {kind : InvokeKind} {a : Nat} {receiver : Value} {name : String} {method : Method}
      {args rest : List Value} {callee : Frame} :
      i = .invoke kind LibraryMethod.closureInvoke.ref →
      w.heap.get? a = some (.closure receiver name) → c.resolve name = .ok method →
      Frame.call method (some receiver) args w.depth .orNull = .ok callee →
      Transition c f w i (.enter { f with stack := rest } callee)
  /-- A method of the running class is called by its name. -/
  | member {kind : InvokeKind} {ref : MethodRef} {receiver : Option Value} {method : Method}
      {args rest : List Value} {callee : Frame} : i = .invoke kind ref → ref.owner = c.name →
      f.stack = args.reverse ++ receiver.toList ++ rest → args.length = ref.arity →
      c.resolve ref.name = .ok method →
      Frame.call method receiver args w.depth .ifAny = .ok callee →
      Transition c f w i (.enter { f with stack := rest } callee)
  | leave {rest : List Value} {result : Option Value} : i.isReturn = true →
      Transition c f w i (.leave { f with stack := rest } result)

variable {c : ClassFile} {f : Frame} {w : World} {i : Instruction}

lemma continues_of_stack (stack : List Value) : f.Continues i { f with stack } :=
  ⟨rfl, rfl, rfl, .inl rfl, fun _ _ => rfl⟩

lemma continues_of_jumpIf {stack : List Value} {cond : Bool} {target : Label} {f' : Frame}
    (htarget : i.target? = some target) (hjump : jumpIf { f with stack } cond target = .ok f') :
    f.Continues i f' := by
  rw [jumpIf] at hjump
  split at hjump
  · rw [jump] at hjump
    split at hjump
    · next pc hpc =>
        obtain rfl := by simpa using hjump
        exact ⟨rfl, rfl, rfl, .inr ⟨target, htarget, hpc⟩, fun _ _ => rfl⟩
    · cases hjump
  · obtain rfl := by simpa using hjump
    exact continues_of_stack stack

/-- Calling a method of the class by an operand enters it. -/
lemma callMember_ok {name : String} {receiver : Option Value} {args : List Value}
    {control : Control} {w' : World}
    (h : f.callMember c w name receiver args = (.ok control, w')) :
    ∃ method callee, c.resolve name = .ok method ∧
      Frame.call method receiver args w.depth .ifAny = .ok callee ∧ control = .enter f callee := by
  have entered : ∀ {v : World}, v.depth = w.depth →
      f.callOwn c v name receiver args .ifAny = (.ok control, w') →
      ∃ method callee, c.resolve name = .ok method ∧
        Frame.call method receiver args w.depth .ifAny = .ok callee ∧
        control = .enter f callee := by
    intro v hdepth hcall
    rw [← hdepth]
    obtain ⟨method, callee, hresolve, hcallee, hcontrol, -⟩ := callOwn_ok hcall
    exact ⟨method, callee, hresolve, hcallee, hcontrol⟩
  cases receiver with
  | none => exact entered rfl h
  | some this =>
      rw [callMember] at h
      split at h
      · split at h
        · simp at h
        · split at h
          · simp at h
          · exact entered (by rfl) h
      · exact entered rfl h

/-- A call of the library goes on in its frame, but for that of a function pointer. -/
lemma callLibrary_transition {kind : InvokeKind} {method : MethodRef} {m : LibraryMethod}
    (hresolve : LibraryMethod.resolve? method = some m) {rest : List Value}
    {receiver : Option Value} {args : List Value} {control : Control} {w' : World}
    (hcall : callLibrary c { f with stack := rest } w m receiver args = (.ok control, w')) :
    f.Transition c w (.invoke kind method) control := by
  rw [callLibrary] at hcall
  split at hcall
  · simp at hcall
  · next result heap _ =>
      obtain ⟨rfl, -⟩ := by simpa using hcall
      cases result with
      | none => exact .next (continues_of_stack rest)
      | some v => exact .next (continues_of_stack (v :: rest))
  · obtain ⟨rfl, -⟩ := by simpa using hcall
    exact .next (continues_of_stack rest)
  · next this name items heap hperform =>
      obtain rfl := LibraryMethod.perform_isCall hperform rfl
      obtain ⟨a, ha⟩ := LibraryMethod.perform_closureInvoke hperform
      obtain ⟨found, callee, hfound, hcallee, rfl, -⟩ := callOwn_ok hcall
      rcases LibraryMethod.eq_ref_of_resolve? hresolve with rfl | ⟨what, hwhat⟩
      · exact .apply rfl ha hfound hcallee
      · simp at hwhat

lemma invoke_transition {kind : InvokeKind} {method : MethodRef} {control : Control} {w' : World}
    (hexec : f.invoke c w kind method = (.ok control, w')) :
    f.Transition c w (.invoke kind method) control := by
  rcases f.invoke_split (c := c) (w := w) kind method with
    hshort | ⟨receiver, args, rest, hstack, hargs, -, hcall⟩
  · simp [hshort] at hexec
  · rw [hcall, callMethod] at hexec
    split at hexec
    · next howner =>
        obtain ⟨found, callee, hfound, hcallee, rfl⟩ := callMember_ok hexec
        exact .member rfl howner hstack hargs hfound hcallee
    · split at hexec
      · next m hresolve => exact callLibrary_transition hresolve hexec
      · simp at hexec

lemma Acts.continues {f' : Frame} {w' : World} (hacts : f.Acts w i f' w') : f.Continues i f' := by
  cases hacts with
  | stack | load | text | make => exact continues_of_stack _
  | @store slot v rest hstack =>
      rw [storeLocal_eq]
      refine ⟨rfl, rfl, rfl, .inl rfl, fun other hother => ?_⟩
      have apart : other ≠ slot := by
        rintro rfl
        exact hother rfl
      simp [getD_writeLocal, apart]
  | jump ops cond hstack hpops hpushes htarget hends hjump =>
      exact continues_of_jumpIf htarget hjump

/-- **After every instruction control goes on in one of these ways**, if the instruction does not
fail. -/
theorem execute_transition {control : Control} {w' : World}
    (hexec : f.execute c i w = (.ok control, w')) : f.Transition c w i control := by
  rcases execute_cases hexec with
    ⟨kind, method, rfl, hinvoke⟩ | ⟨rest, result, hreturn, -, -, rfl⟩ | ⟨f', rfl, hacts⟩
  · exact invoke_transition hinvoke
  · exact .leave hreturn
  · exact .next hacts.continues

/-! ## Open calls -/

/-- The number of calls that an instruction opens. -/
def opened : Except Fault Control → Nat
  | .ok (.enter _ _) => 1
  | _ => 0

lemma depth_callOwn (name : String) (receiver : Option Value) (args : List Value)
    (use : ResultUse) :
    (f.callOwn c w name receiver args use).2.depth
      = w.depth + opened (f.callOwn c w name receiver args use).1 := by
  rw [callOwn]
  split
  · rfl
  · split <;> rfl

lemma depth_callMethod (method : MethodRef) (receiver : Option Value) (args : List Value) :
    (f.callMethod c w method receiver args).2.depth
      = w.depth + opened (f.callMethod c w method receiver args).1 := by
  rw [callMethod]
  split
  · cases receiver with
    | none => exact depth_callOwn ..
    | some this =>
        rw [callMember]
        split
        · split
          · rfl
          · split
            · rfl
            · next heap _ => exact depth_callOwn (w := { w with heap }) ..
        · exact depth_callOwn ..
  · split
    · rw [callLibrary]
      split
      · rfl
      · rfl
      · rfl
      · next heap _ => exact depth_callOwn (w := { w with heap }) ..
    · rfl

/-- **An instruction counts the call it opens**, and nothing else. -/
lemma depth_execute (c : ClassFile) (f : Frame) (i : Instruction) (w : World) :
    (f.execute c i w).2.depth = w.depth + opened (f.execute c i w).1 := by
  have stayed : ∀ x : Except Fault Frame, (stay w x).2.depth = w.depth + opened (stay w x).1 := by
    intro x
    cases x <;> rfl
  cases i with
  | invoke kind method =>
      rw [execute]
      rcases f.invoke_split (c := c) (w := w) kind method with
        hshort | ⟨receiver, args, rest, -, -, -, hcall⟩
      · rw [hshort]
        rfl
      · rw [hcall]
        exact depth_callMethod method receiver args
  | ldc constant => cases constant <;> rfl
  | retValue =>
      rw [execute]
      split <;> rfl
  | label _ | load _ | zero | new _ | ret => rfl
  | _ => exact stayed _

end Frame

end StackBackend
