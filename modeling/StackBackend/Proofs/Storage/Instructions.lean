import StackBackend.Proofs.Machine.Inversion
import Mathlib.Data.List.Basic

/-!
# What an instruction does to the heap

An instruction changes the heap through the library, or by making an object.  As long as it is given
only what can be seen, it turns the heap as `Heap.Turns` says, and what it leaves can be seen as
well.  Two methods of the library need more: `arrayAdd` and `listInit` take an array, and no list
may be around it yet (`LibraryMethod.filled`).  `listSet` is the only one that changes the items of
a list.

* `LibraryMethod.perform_sees`, `LibraryMethod.perform_turns` — the library;
* `Frame.execute_turns` — every instruction;
* `Frame.execute_quiet` — what an instruction other than a call or a return does to its frame.
-/

namespace StackBackend

/-! ## The library -/

/-- The values of a reply. -/
def Reply.values : Reply → List Value
  | done result => result.toList
  | print _ => []
  | apply receiver _ args => receiver :: args

/-- Whether a reply is a call of a method. -/
def Reply.isCall : Reply → Bool
  | apply _ _ _ => true
  | _ => false

/-- The values that a method is entered with can be seen in its slots. -/
lemma Method.sees_entryLocals (method : Method) {h : Heap} {hidden : Set Nat} {receiver : Value}
    {args : List Value} (hargs : ∀ v ∈ receiver :: args, h.Sees hidden v) (slot : Nat) :
    h.Sees hidden ((method.entryLocals receiver args)[slot]?.getD .null) := by
  rw [Method.entryLocals, List.getElem?_toArray]
  cases hlocal : (if method.isStatic then args else receiver :: args)[slot]? with
  | none => exact Heap.sees_null
  | some v =>
      have hv := List.mem_of_getElem? hlocal
      split at hv
      · exact hargs v (List.mem_cons_of_mem _ hv)
      · exact hargs v hv

namespace LibraryMethod

open Heap

/-- The array that a call puts something into, or puts a list around. -/
def filled (m : LibraryMethod) (this : Value) (args : List Value) : Value :=
  match m with
  | arrayAdd => this
  | listInit => args[0]?.getD .null
  | _ => .null

/-- Whether a call needs nothing but what can be seen, and stays in its frame. -/
def isQuiet : LibraryMethod → Bool
  | arrayAdd | listInit | closureInvoke => false
  | _ => true

/-- The list whose items a call changes. -/
def target (m : LibraryMethod) (this : Value) : Value :=
  match m with
  | listSet => this
  | _ => .null

variable {h h' : Heap} {hidden : Set Nat} {this : Value} {args : List Value} {reply : Reply}

lemma sees_arg (hargs : ∀ v ∈ args, h.Sees hidden v) (place : Nat) :
    h.Sees hidden (args[place]?.getD .null) := by
  cases harg : args[place]? with
  | none => exact sees_null
  | some v => exact hargs v (List.mem_of_getElem? harg)

/-- **What comes back of a call of the library** can be seen if what was given can. -/
theorem perform_sees {m : LibraryMethod} (hperform : m.perform h this args = .ok (reply, h'))
    (hguards : h.Guards hidden) (hthis : h.Sees hidden this)
    (hargs : ∀ v ∈ args, h.Sees hidden v) : ∀ v ∈ reply.values, h.Sees hidden v := by
  cases performs_of_perform hperform with
  | plain hplain => exact fun v hv => sees_of_scalar (hplain v (by simpa [Reply.values] using hv))
  | print | array | closure | list | copy | assign => simp [Reply.values]
  | text content => simp [Reply.values, newText, Heap.Sees]
  | add => simp [Reply.values, Heap.Sees]
  | @get l b place items hthis' hlist hitems =>
      have shown := (hguards l _ hlist (hthis l hthis').2 (.ref b) (by simp [Obj.values]) b rfl).2
      simp only [Reply.values, Option.toList_some, List.mem_singleton, forall_eq]
      cases hitem : items[place]? with
      | none => exact sees_null
      | some v =>
          exact hguards b _ hitems shown v (by simpa [Obj.values] using Array.mem_of_getElem? hitem)
  | @apply a receiver name items hthis' hclosure hitems =>
      simp only [Reply.values, List.mem_cons, forall_eq_or_imp]
      exact ⟨hguards a _ hclosure (hthis a hthis').2 receiver (by simp [Obj.values]),
        sees_itemsWithin hguards (sees_arg hargs 0) hitems⟩

/-- **A call of the library on what can be seen** turns the heap. -/
theorem perform_turns {m : LibraryMethod} (hperform : m.perform h this args = .ok (reply, h'))
    (hsealed : h.Sealed hidden) (hthis : h.Sees hidden this) (hargs : ∀ v ∈ args, h.Sees hidden v)
    (hloose : ∀ a, m.filled this args = .ref a → h.Loose a) :
    Turns hidden (m.target this) h h' := by
  cases performs_of_perform hperform with
  | plain | print | get | apply => exact turns_refl hsealed
  | text content => exact turns_newText hsealed content
  | @array a owner hthis' hold =>
      exact turns_init hsealed hold (hthis a hthis').2 (by simp [Obj.values]) (by simp)
  | @closure a ident owner name hthis' hold =>
      have seen := sees_arg hargs 0
      exact turns_init hsealed hold (hthis a hthis').2 (by simpa [Obj.values] using seen) (by simp)
  | @list a b owner items hthis' hold hb hitems =>
      have seen := sees_arg hargs 0
      exact turns_wrap hsealed hold (hthis a hthis').2 hitems (seen b hb).2 (hloose b hb)
  | @copy a owner items hthis' hold hitems =>
      exact turns_copy hsealed hold (hthis a hthis').2
        (sees_itemsWithin hsealed.guards (sees_arg hargs 0) hitems)
  | @add a items hthis' hitems =>
      exact turns_push hsealed hitems (hthis a hthis').2 (hloose a hthis') (sees_arg hargs 0)
  | @assign l b place index items hthis' hlist hitems =>
      subst hthis'
      exact turns_assign hsealed hlist (hthis l rfl).2 hitems (sees_arg hargs 1) place

/-- **Only calling a function pointer calls a method.** -/
lemma perform_isCall {m : LibraryMethod} (hperform : m.perform h this args = .ok (reply, h'))
    (hcall : reply.isCall = true) : m = .closureInvoke := by
  cases performs_of_perform hperform with
  | apply => rfl
  | _ => simp [Reply.isCall] at hcall

lemma filled_of_isQuiet {m : LibraryMethod} (hquiet : m.isQuiet = true) :
    m.filled this args = .null := by
  cases m with
  | arrayAdd | listInit => simp [isQuiet] at hquiet
  | _ => rfl

end LibraryMethod

/-! ## Calls -/

namespace MethodRef

/-- Whether an operand names a method of the library, of some kind. -/
def isOfLibrary (method : MethodRef) (kind : LibraryMethod → Bool) : Bool :=
  match LibraryMethod.resolve? method with
  | some m => m.ref = method && kind m
  | none => false

@[simp] lemma isOfLibrary_ref (m : LibraryMethod) (kind : LibraryMethod → Bool) :
    m.ref.isOfLibrary kind = kind m := by
  simp [isOfLibrary, LibraryMethod.resolve?_ref]

lemma exists_of_isOfLibrary {method : MethodRef} {kind : LibraryMethod → Bool}
    (h : method.isOfLibrary kind = true) : ∃ m : LibraryMethod, method = m.ref ∧ kind m = true := by
  rw [isOfLibrary] at h
  split at h
  · next m _ =>
      obtain ⟨hm, hkind⟩ : m.ref = method ∧ kind m = true := by simpa using h
      exact ⟨m, hm.symm, hkind⟩
  · simp at h

end MethodRef

namespace Instruction

/-- If an instruction is a call, then of the library. -/
def IsLibrary (i : Instruction) : Prop :=
  ∀ kind method, i = .invoke kind method → ∃ m : LibraryMethod, method = m.ref

/-- Whether an instruction needs nothing but what can be seen, and stays in its frame. -/
def isQuiet : Instruction → Bool
  | invoke _ method => method.isOfLibrary LibraryMethod.isQuiet
  | ret | retValue => false
  | _ => true

/-- Whether an instruction stays in its frame. -/
def staysPut : Instruction → Bool
  | invoke _ method => method.isOfLibrary (· ≠ .closureInvoke)
  | ret | retValue => false
  | _ => true

/-- Which kind of control can come of an instruction. -/
def LeadsTo (i : Instruction) : Control → Prop
  | .next _ => True
  | .enter _ _ => ∃ kind, i = .invoke kind LibraryMethod.closureInvoke.ref
  | .leave _ _ => i = .ret ∨ i = .retValue

@[simp] lemma staysPut_invoke (kind : InvokeKind) (m : LibraryMethod) :
    (invoke kind m.ref).staysPut = decide (m ≠ .closureInvoke) :=
  MethodRef.isOfLibrary_ref m _

lemma staysPut_of_isQuiet {i : Instruction} (hquiet : i.isQuiet = true) : i.staysPut = true := by
  cases i with
  | invoke kind method =>
      obtain ⟨m, rfl, hm⟩ := MethodRef.exists_of_isOfLibrary hquiet
      rw [staysPut_invoke, decide_eq_true_eq]
      rintro rfl
      simp [LibraryMethod.isQuiet] at hm
  | ret | retValue => exact hquiet
  | _ => rfl

lemma isLibrary_of_isQuiet {i : Instruction} (hquiet : i.isQuiet = true) : i.IsLibrary := by
  rintro kind method rfl
  obtain ⟨m, rfl, -⟩ := MethodRef.exists_of_isOfLibrary hquiet
  exact ⟨m, rfl⟩

lemma isLibrary_of_staysPut {i : Instruction} (hstays : i.staysPut = true) : i.IsLibrary := by
  rintro kind method rfl
  obtain ⟨m, rfl, -⟩ := MethodRef.exists_of_isOfLibrary hstays
  exact ⟨m, rfl⟩

end Instruction

namespace Frame

open Heap

variable {c : ClassFile} {f : Frame} {w : World} {hidden : Set Nat}

/-- Opening a call does nothing to the heap. -/
lemma heap_callOwn (name : String) (receiver : Option Value) (args : List Value)
    (use : ResultUse) : (f.callOwn c w name receiver args use).2.heap = w.heap := by
  rw [callOwn]
  split
  · rfl
  · split <;> rfl

lemma callOwn_ok {name : String} {receiver : Option Value} {args : List Value} {use : ResultUse}
    {control : Control} {w' : World}
    (h : f.callOwn c w name receiver args use = (.ok control, w')) :
    ∃ method callee, c.resolve name = .ok method ∧
      Frame.call method receiver args w.depth use = .ok callee ∧ control = .enter f callee ∧
      w.enter 1 = w' := by
  rw [callOwn] at h
  split at h
  · simp at h
  · next method hmethod =>
      split at h
      · simp at h
      · next callee hcallee =>
          obtain ⟨rfl, rfl⟩ := by simpa using h
          exact ⟨method, callee, hmethod, hcallee, rfl, rfl⟩

lemma callLibrary_turns {m : LibraryMethod} {receiver : Option Value} {args : List Value}
    (hsealed : w.heap.Sealed hidden) (hreceiver : w.heap.Sees hidden (receiver.getD .null))
    (hargs : ∀ v ∈ args, w.heap.Sees hidden v)
    (hloose : ∀ a, m.filled (receiver.getD .null) args = .ref a → w.heap.Loose a) :
    Turns hidden (m.target (receiver.getD .null)) w.heap
      (f.callLibrary c w m receiver args).2.heap := by
  rw [callLibrary]
  split
  · exact turns_refl hsealed
  · next hperform => exact LibraryMethod.perform_turns hperform hsealed hreceiver hargs hloose
  · next hperform => exact LibraryMethod.perform_turns hperform hsealed hreceiver hargs hloose
  · next hperform =>
      rw [heap_callOwn]
      exact LibraryMethod.perform_turns hperform hsealed hreceiver hargs hloose

/-- A quiet call goes on in its frame, with the result its method has. -/
lemma callLibrary_quiet {m : LibraryMethod} (hquiet : m.isQuiet = true) {receiver : Option Value}
    {args : List Value} (hsealed : w.heap.Sealed hidden)
    (hreceiver : w.heap.Sees hidden (receiver.getD .null))
    (hargs : ∀ v ∈ args, w.heap.Sees hidden v) {control : Control} {w' : World}
    (hcall : f.callLibrary c w m receiver args = (.ok control, w')) :
    ∃ result : Option Value, control = .next (f.receive .ifAny result) ∧
      result.isSome = m.returnsValue ∧ ∀ v ∈ result, w'.heap.Sees hidden v := by
  have loose : ∀ a, m.filled (receiver.getD .null) args = .ref a → w.heap.Loose a := by
    simp [LibraryMethod.filled_of_isQuiet hquiet]
  have mild := (m.perform_tame w.heap (receiver.getD .null) args).mild
  rw [callLibrary] at hcall
  split at hcall
  · simp at hcall
  · next result heap hperform =>
      have seen := LibraryMethod.perform_sees hperform hsealed.guards hreceiver hargs
      have turned := LibraryMethod.perform_turns hperform hsealed hreceiver hargs loose
      obtain ⟨rfl, rfl⟩ := by simpa using hcall
      rw [hperform] at mild
      refine ⟨result, rfl, mild, fun v hv => turned.kept.sees (seen v ?_)⟩
      simpa [Reply.values] using hv
  · next hperform =>
      obtain ⟨rfl, rfl⟩ := by simpa using hcall
      rw [hperform] at mild
      exact ⟨none, rfl, Eq.symm mild, by simp⟩
  · next hperform =>
      rw [LibraryMethod.perform_isCall hperform rfl] at hquiet
      simp [LibraryMethod.isQuiet] at hquiet

/-- A call of the library takes its arguments and its receiver off the stack, if they are there. -/
lemma invoke_cases (apart : ∀ m : LibraryMethod, m.ref.owner ≠ c.name) (kind : InvokeKind)
    (m : LibraryMethod) :
    (∃ e, f.invoke c w kind m.ref = (.error e, w)) ∨
      ∃ receiver args rest, f.stack = args.reverse ++ Option.toList receiver ++ rest ∧
        (Instruction.invoke kind m.ref).pops = (args.reverse ++ Option.toList receiver).length ∧
        args.length = m.arity ∧
        f.invoke c w kind m.ref = callLibrary c { f with stack := rest } w m receiver args := by
  by_cases hcount : m.arity ≤ f.stack.length
  · have popped : f.popArgs m.ref.arity
        = .ok ((f.stack.take m.arity).reverse, { f with stack := f.stack.drop m.arity }) := by
      rw [m.arity_ref, popArgs, takeArgs_eq hcount]
      simp
    have called : ∀ (f' : Frame) (receiver : Option Value) (args : List Value),
        f'.callMethod c w m.ref receiver args = f'.callLibrary c w m receiver args := by
      intro f' receiver args
      rw [callMethod, if_neg (apart m), LibraryMethod.resolve?_ref]
    rw [invoke, popped]
    cases kind with
    | static =>
        refine .inr ⟨none, (f.stack.take m.arity).reverse, f.stack.drop m.arity, by simp, ?_, ?_,
          ?_⟩
        · simpa [m.pops_invoke] using hcount
        · simpa using hcount
        · simp [called]
    | virtual | special =>
        cases hrest : f.stack.drop m.arity with
        | nil => exact .inl ⟨underflow f, rfl⟩
        | cons this rest =>
            refine .inr ⟨some this, (f.stack.take m.arity).reverse, rest, ?_, ?_, ?_, ?_⟩
            · simp [← hrest]
            · simpa [m.pops_invoke] using hcount
            · simpa using hcount
            · simp [pop, called]
  · refine .inl ⟨underflow f, ?_⟩
    have short : ∀ (count : Nat) (taken stack : List Value), stack.length < count →
        takeArgs count taken stack = none := by
      intro count
      induction count with
      | zero => intro taken stack h; omega
      | succ count ih =>
          intro taken stack h
          cases stack with
          | nil => rfl
          | cons v stack => exact ih _ _ (by simpa using h)
    rw [invoke, popArgs, m.arity_ref, short _ _ _ (by omega)]

/-- **What an instruction leads to**: only the call of a function pointer enters a method, and only
a return leaves one. -/
lemma execute_leadsTo (apart : ∀ m : LibraryMethod, m.ref.owner ≠ c.name) {i : Instruction}
    (hlibrary : i.IsLibrary) {control : Control} {w' : World}
    (hexec : f.execute c i w = (.ok control, w')) : i.LeadsTo control := by
  rcases execute_cases hexec with
    ⟨kind, method, rfl, hinvoke⟩ | ⟨rest, result, hreturn, -, -, rfl⟩ | ⟨f', rfl, -⟩
  · obtain ⟨m, rfl⟩ := hlibrary kind method rfl
    rcases f.invoke_cases (w := w) apart kind m with
      ⟨e, he⟩ | ⟨receiver, args, rest, -, -, -, hcall⟩
    · simp [he] at hinvoke
    · rw [hcall, callLibrary] at hinvoke
      split at hinvoke
      · simp at hinvoke
      · obtain ⟨rfl, -⟩ := by simpa using hinvoke
        trivial
      · obtain ⟨rfl, -⟩ := by simpa using hinvoke
        trivial
      · next hperform =>
          obtain rfl := LibraryMethod.perform_isCall hperform rfl
          obtain ⟨_, callee, -, -, rfl, -⟩ := callOwn_ok hinvoke
          exact ⟨kind, rfl⟩
  · cases i with
    | ret => exact .inl rfl
    | retValue => exact .inr rfl
    | _ => simp [Instruction.isReturn] at hreturn
  · trivial

/-- The array that an instruction puts something into, or puts a list around. -/
def filled (f : Frame) : Instruction → Value
  | .invoke _ method =>
    match LibraryMethod.resolve? method with
    | some .arrayAdd => f.stack[1]?.getD .null
    | some .listInit => f.stack[0]?.getD .null
    | _ => .null
  | _ => .null

/-- The list whose items an instruction changes. -/
def assigned (f : Frame) : Instruction → Value
  | .invoke _ method =>
    match LibraryMethod.resolve? method with
    | some .listSet => f.stack[2]?.getD .null
    | _ => .null
  | _ => .null

lemma filled_invoke {kind : InvokeKind} {m : LibraryMethod} {receiver : Option Value}
    {args rest : List Value} (hstack : f.stack = args.reverse ++ receiver.toList ++ rest)
    (hargs : args.length = m.arity) {a : Nat}
    (ha : m.filled (receiver.getD .null) args = .ref a) :
    f.filled (.invoke kind m.ref) = .ref a := by
  rw [filled, LibraryMethod.resolve?_ref]
  cases m with
  | arrayAdd =>
      obtain ⟨x, rfl⟩ := List.length_eq_one_iff.1 hargs
      cases receiver with
      | none => simp [LibraryMethod.filled] at ha
      | some this => simpa [hstack, LibraryMethod.filled] using ha
  | listInit =>
      obtain ⟨x, rfl⟩ := List.length_eq_one_iff.1 hargs
      simpa [hstack, LibraryMethod.filled] using ha
  | _ => simp [LibraryMethod.filled] at ha

lemma target_invoke {kind : InvokeKind} {m : LibraryMethod} {receiver : Option Value}
    {args rest : List Value} (hstack : f.stack = args.reverse ++ receiver.toList ++ rest)
    (hargs : args.length = m.arity) {l : Nat}
    (hl : m.target (receiver.getD .null) = .ref l) : f.assigned (.invoke kind m.ref) = .ref l := by
  rw [assigned, LibraryMethod.resolve?_ref]
  cases m with
  | listSet =>
      obtain ⟨x, y, rfl⟩ : ∃ x y, args = [x, y] := List.length_eq_two.1 hargs
      cases receiver with
      | none => simp [LibraryMethod.target] at hl
      | some this => simpa [hstack, LibraryMethod.target] using hl
  | _ => simp [LibraryMethod.target] at hl

/-- **An instruction that is given what can be seen turns the heap**, whether it fails or not. -/
theorem execute_turns (apart : ∀ m : LibraryMethod, m.ref.owner ≠ c.name) {i : Instruction}
    (hlibrary : i.IsLibrary) (hsealed : w.heap.Sealed hidden)
    (hops : ∀ v ∈ f.stack.take i.pops, w.heap.Sees hidden v)
    (hloose : ∀ a, f.filled i = .ref a → w.heap.Loose a) :
    Turns hidden (f.assigned i) w.heap (f.execute c i w).2.heap := by
  cases i with
  | invoke kind method =>
      obtain ⟨m, rfl⟩ := hlibrary kind method rfl
      rw [execute]
      rcases f.invoke_cases (w := w) apart kind m with
        ⟨e, he⟩ | ⟨receiver, args, rest, hstack, hpops, hargs, hcall⟩
      · rw [he]
        exact turns_refl hsealed
      · rw [hstack, hpops, List.take_left] at hops
        have turned : Turns hidden (m.target (receiver.getD .null)) w.heap
            (callLibrary c { f with stack := rest } w m receiver args).2.heap :=
          callLibrary_turns hsealed (by cases receiver <;> simp_all)
            (fun v hv => hops v (by simp [hv])) fun a ha => hloose a (filled_invoke hstack hargs ha)
        rw [hcall]
        refine ⟨turned.sealed, turned.kept, turned.orderly, fun hl hitems => ?_⟩
        refine (turned.calm hl hitems).imp_right fun haround => ?_
        obtain ⟨l, htarget, -⟩ := object?_ok haround
        rwa [target_invoke hstack hargs htarget, ← htarget]
  | ldc constant =>
      cases constant with
      | int value => exact turns_refl hsealed
      | str content => exact turns_newText hsealed content
  | new owner => exact turns_alloc hsealed (by simp [Obj.values]) (by simp)
  | retValue =>
      rw [execute]
      split <;> exact turns_refl hsealed
  | _ => exact turns_refl hsealed

/-! ## Quiet instructions -/

lemma filled_of_isQuiet {i : Instruction} (hquiet : i.isQuiet = true) : f.filled i = .null := by
  cases i with
  | invoke kind method =>
      obtain ⟨m, rfl, hm⟩ := MethodRef.exists_of_isOfLibrary hquiet
      rw [filled, LibraryMethod.resolve?_ref]
      cases m <;> first | rfl | simp [LibraryMethod.isQuiet] at hm
  | _ => rfl

/-- **What a quiet instruction makes of its frame**: operands are taken, results that can be seen
are left, and a slot is written at most. -/
structure Proceeds (hidden : Set Nat) (f : Frame) (i : Instruction) (h : Heap) (f' : Frame) :
    Prop where
  enough : i.pops ≤ f.stack.length
  rest : f' = { f with pc := f'.pc, stack := f'.stack, locals := f'.locals }
  stack : ∃ results, f'.stack = results ++ f.stack.drop i.pops ∧ results.length = i.pushes ∧
    ∀ v ∈ results, h.Sees hidden v
  place : (i.endsBlock = false ∧ f'.pc = f.pc) ∨
    ∃ l, i.target? = some l ∧ f.labels.lookup l = some f'.pc
  locals : ∀ slot, f'.locals[slot]?.getD .null = f.locals[slot]?.getD .null ∨
    i = .store slot ∧ h.Sees hidden (f'.locals[slot]?.getD .null)

/-- Operands have been taken and results left. -/
lemma proceeds_of_stack {i : Instruction} {h : Heap} {rest : List Value} (ops : List Value)
    (hstack : f.stack = ops ++ rest) (hops : i.pops = ops.length) (results : List Value)
    (hresults : results.length = i.pushes) (hends : i.endsBlock = false)
    (hsees : ∀ v ∈ results, h.Sees hidden v) :
    f.Proceeds hidden i h { f with stack := results ++ rest } where
  enough := by simp [hstack, hops]
  rest := rfl
  stack := ⟨results, by simp [hstack, hops], hresults, hsees⟩
  place := .inl ⟨hends, rfl⟩
  locals _ := .inl rfl

/-- After a jump operands have been taken, and the place is that of the label, or the next. -/
lemma proceeds_of_jumpIf {i : Instruction} {h : Heap} {rest : List Value} {target : Label}
    {f' : Frame} (ops : List Value) (cond : Bool) (hstack : f.stack = ops ++ rest)
    (hops : i.pops = ops.length)
    (hpushes : i.pushes = 0) (htarget : i.target? = some target)
    (hends : cond = false → i.endsBlock = false)
    (hjump : jumpIf { f with stack := rest } cond target = .ok f') : f.Proceeds hidden i h f' := by
  cases cond with
  | false =>
      obtain rfl : { f with stack := rest } = f' := by simpa [jumpIf] using hjump
      exact proceeds_of_stack ops hstack hops [] hpushes.symm (hends rfl) (by simp)
  | true =>
      rw [jumpIf, if_pos rfl, jump] at hjump
      split at hjump
      · next pc hpc =>
          obtain rfl := by simpa using hjump
          exact ⟨by simp [hstack, hops], rfl, ⟨[], by simp [hstack, hops], hpushes.symm, by simp⟩,
            .inr ⟨target, htarget, hpc⟩, fun _ => .inl rfl⟩
      · cases hjump

/-- An instruction that acts in its frame proceeds, if it is given what can be seen. -/
lemma Acts.proceeds {i : Instruction} {f' : Frame} {w' : World} (hacts : f.Acts w i f' w')
    (hsealed : w.heap.Sealed hidden) (hops : ∀ v ∈ f.stack.take i.pops, w.heap.Sees hidden v)
    (hload : ∀ slot, i = .load slot → w.heap.Sees hidden (f.loadLocal slot)) :
    f.Proceeds hidden i w'.heap f' := by
  cases hacts with
  | @stack _ rest ops results hstack hpops hpushes hends hresults =>
      refine proceeds_of_stack ops hstack hpops results hpushes hends fun v hv => ?_
      rcases hresults v hv with taken | scalar
      · exact hops v (by simpa [hstack, hpops] using taken)
      · exact sees_of_scalar scalar
  | load slot => exact proceeds_of_stack [] rfl rfl [_] rfl rfl (by simpa using hload slot rfl)
  | text content =>
      exact proceeds_of_stack [] rfl rfl [_] rfl rfl (by simp [newText, Heap.Sees])
  | make owner =>
      exact proceeds_of_stack [] rfl rfl [_] rfl rfl (by simpa [alloc] using hsealed.fresh)
  | @store slot v rest hstack =>
      have taken : w.heap.Sees hidden v := hops v (by simp [hstack, Instruction.pops])
      rw [storeLocal_eq]
      refine ⟨by simp [hstack, Instruction.pops], rfl,
        ⟨[], by simp [hstack, Instruction.pops], rfl, by simp⟩, .inl ⟨rfl, rfl⟩, fun other => ?_⟩
      by_cases same : other = slot
      · subst same
        exact .inr ⟨rfl, by simpa [getD_writeLocal] using taken⟩
      · exact .inl (by simp [getD_writeLocal, same])
  | jump ops cond hstack hpops hpushes htarget hends hjump =>
      exact proceeds_of_jumpIf ops cond hstack hpops hpushes htarget hends hjump

/-- **A quiet instruction goes on in its frame.** -/
theorem execute_quiet (apart : ∀ m : LibraryMethod, m.ref.owner ≠ c.name) {i : Instruction}
    (hquiet : i.isQuiet = true) (hsealed : w.heap.Sealed hidden)
    (hops : ∀ v ∈ f.stack.take i.pops, w.heap.Sees hidden v)
    (hload : ∀ slot, i = .load slot → w.heap.Sees hidden (f.loadLocal slot)) {control : Control}
    {w' : World} (hexec : f.execute c i w = (.ok control, w')) :
    ∃ f', control = .next f' ∧ f.Proceeds hidden i w'.heap f' := by
  rcases execute_cases hexec with
    ⟨kind, method, rfl, hinvoke⟩ | ⟨rest, result, hreturn, -, -, rfl⟩ | ⟨f', rfl, hacts⟩
  · obtain ⟨m, rfl, hm⟩ := MethodRef.exists_of_isOfLibrary hquiet
    rcases f.invoke_cases (w := w) apart kind m with
      ⟨e, he⟩ | ⟨receiver, args, rest, hstack, hpops, hargs, hcall⟩
    · simp [he] at hinvoke
    · rw [hcall] at hinvoke
      rw [hstack, hpops, List.take_left] at hops
      obtain ⟨result, rfl, hresult, hsees⟩ := callLibrary_quiet hm hsealed
        (by cases receiver <;> simp_all) (fun v hv => hops v (by simp [hv])) hinvoke
      have hpushes : (Instruction.invoke kind m.ref).pushes = result.toList.length := by
        rw [Instruction.pushes, m.returnsValue_ref, ← hresult]
        cases result <;> rfl
      have received : receive { f with stack := rest } .ifAny result
          = { f with stack := result.toList ++ rest } := by
        cases result <;> rfl
      rw [received]
      exact ⟨_, rfl, proceeds_of_stack _ hstack hpops _ hpushes.symm rfl (by simpa using hsees)⟩
  · cases i with
    | ret | retValue => simp [Instruction.isQuiet] at hquiet
    | _ => simp [Instruction.isReturn] at hreturn
  · exact ⟨f', rfl, hacts.proceeds hsealed hops hload⟩

end Frame

end StackBackend
