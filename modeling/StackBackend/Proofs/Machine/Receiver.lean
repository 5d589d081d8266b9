import StackBackend.Proofs.Lowering.Pointers
import StackBackend.Proofs.Machine.HeapTyping
import StackBackend.Proofs.Machine.StepLimit
import StackBackend.Proofs.Storage.Sharing

/-!
# One receiver for all code

The entry point of a class makes one instance and calls the constructor on it.  All other methods
are called through function pointers, and those are made by methods that run on the instance, of
their own receiver.  So there is one receiver for all code.

**The invariant.**  `Heap.Receiver c a h` says that the object at `a` is the only instance and the
receiver of all function pointers; `Frame.RunsOn` that a frame runs a method on it.  A pointer is
made by three instructions in a row, and between them its parts are on the stack:
`Frame.PointerReady` says so, by place.  Control does not arrive there from elsewhere, since labels
and calls are other instructions (`Tidy`).

**Runs.**  A run of the entry point is still before the call of the constructor, or inside it
(`Machine.EntryRun`).  `one_receiver` states the outcome.
-/

namespace StackBackend

open Lowering

/-! ## The heap -/

namespace Heap

/-- **The object at `a` is the only receiver**: the only instance, and what all function pointers
call their method on.  None of them is to the entry point. -/
structure Receiver (c : ClassFile) (a : Nat) (h : Heap) : Prop where
  inst : h.get? a = some (.inst c.name)
  only : ∀ b owner, h.get? b = some (.inst owner) → b = a
  pointers : ∀ b receiver name, h.get? b = some (.closure receiver name) →
    receiver = .ref a ∧ name ≠ "main"

/-- There is one instance at most, and all function pointers have it as their receiver. -/
structure Single (c : ClassFile) (h : Heap) : Prop where
  unique : ∀ a b owner owner', h.get? a = some (.inst owner) → h.get? b = some (.inst owner') →
    a = b
  pointers : ∀ b receiver name, h.get? b = some (.closure receiver name) →
    ∃ a, receiver = .ref a ∧ h.get? a = some (.inst c.name)

/-- There is neither an instance nor a function pointer yet. -/
structure Bare (h : Heap) : Prop where
  inst : ∀ a owner, h.get? a ≠ some (.inst owner)
  pointers : ∀ a receiver name, h.get? a ≠ some (.closure receiver name)

variable {c : ClassFile} {h h' : Heap} {stack : List Value} {i : Instruction} {a : Nat}

lemma Receiver.single (hreceiver : h.Receiver c a) : h.Single c where
  unique b b' owner owner' hb hb' := by
    rw [hreceiver.only b owner hb, hreceiver.only b' owner' hb']
  pointers b receiver name hb := ⟨a, (hreceiver.pointers b receiver name hb).1, hreceiver.inst⟩

lemma Bare.single (hbare : h.Bare) : h.Single c where
  unique b _ owner _ hb _ := absurd hb (hbare.inst b owner)
  pointers b receiver name hb := absurd hb (hbare.pointers b receiver name)

/-- An object that is not initialized leaves the heap bare. -/
lemma Bare.alloc (hbare : h.Bare) (owner : String) : (h.alloc (.uninit owner)).2.Bare where
  inst b owner' hb := by
    rw [get?_alloc] at hb
    split at hb
    · simp at hb
    · exact hbare.inst b owner' hb
  pointers b receiver name hb := by
    rw [get?_alloc] at hb
    split at hb
    · simp at hb
    · exact hbare.pointers b receiver name hb

/-- **The first instance** is the receiver. -/
lemma Bare.receiver (hbare : h.Bare) {owner : String} (hwaiting : h.get? a = some (.uninit owner)) :
    (h.set a (.inst c.name)).Receiver c a where
  inst := by rw [get?_set hwaiting, if_pos rfl]
  only b owner' hb := by
    rw [get?_set hwaiting] at hb
    split at hb
    · assumption
    · exact absurd hb (hbare.inst b owner')
  pointers b receiver name hb := by
    rw [get?_set hwaiting] at hb
    split at hb
    · simp at hb
    · exact absurd hb (hbare.pointers b receiver name)

/-- An instance comes of a call of the constructor of its class, and of nothing else. -/
lemma Change.inst (hchange : h.Change c stack i h') {owner : String}
    (hobj : h'.get? a = some (.inst owner)) :
    h.get? a = some (.inst owner) ∨ ∃ kind method, ∃ args rest : List Value,
      i = .invoke kind method ∧ method.owner = c.name ∧
        stack = args.reverse ++ .ref a :: rest ∧ args.length = method.arity := by
  rcases hchange.origin hobj rfl with hold | hbuilds | ⟨items, hlist, -⟩
  · exact .inl hold
  · cases hbuilds with
    | inst howner _ hstack hargs => exact .inr ⟨_, _, _, _, rfl, howner, hstack, hargs⟩
  · simp at hlist

/-- A function pointer comes of a call of its constructor. -/
lemma Change.closure (hchange : h.Change c stack i h') {receiver : Value} {name : String}
    (hobj : h'.get? a = some (.closure receiver name)) :
    h.get? a = some (.closure receiver name) ∨
      ∃ kind ident rest, i = .invoke kind LibraryMethod.closureInit.ref ∧
        stack = .text ident name :: receiver :: .ref a :: rest := by
  rcases hchange.origin hobj rfl with hold | hbuilds | ⟨items, hlist, -⟩
  · exact .inl hold
  · cases hbuilds with
    | closure hstack => exact .inr ⟨_, _, _, rfl, hstack⟩
  · simp at hlist

/-- **An instruction that calls the library only keeps the receiver**, if a function pointer it
makes is to be called on it. -/
lemma Receiver.change (hreceiver : h.Receiver c a) (hchange : h.Change c stack i h')
    (apart : ∀ m : LibraryMethod, m.ref.owner ≠ c.name) (hlibrary : i.IsLibrary)
    (hpointer : ∀ kind, i = .invoke kind LibraryMethod.closureInit.ref →
      ∃ ident name rest, stack = .text ident name :: .ref a :: rest ∧ name ≠ "main") :
    h'.Receiver c a where
  inst := by
    obtain ⟨obj, hobj, hages⟩ := hchange.ages a _ hreceiver.inst
    cases hages with
    | same => exact hobj
  only b owner hb := by
    rcases hchange.inst hb with hold | ⟨kind, method, _, _, rfl, howner, -⟩
    · exact hreceiver.only b owner hold
    · obtain ⟨m, rfl⟩ := hlibrary kind method rfl
      exact absurd howner (apart m)
  pointers b receiver name hb := by
    rcases hchange.closure hb with hold | ⟨kind, ident, rest, rfl, hstack⟩
    · exact hreceiver.pointers b receiver name hold
    · obtain ⟨ident', name', rest', hstack', hname⟩ := hpointer kind rfl
      rw [hstack] at hstack'
      obtain ⟨⟨-, rfl⟩, rfl, -⟩ : (ident = ident' ∧ name = name') ∧ receiver = .ref a ∧ _ := by
        simpa using hstack'
      exact ⟨rfl, hname⟩

end Heap

/-! ## Frames -/

namespace Lowering

/-- What stands in front of the constructor of a function pointer. -/
lemma Tidy.before {name : String} {code : Code} (h : Tidy name code.toList) {pc : Nat}
    {kind : InvokeKind} (hi : code[pc]? = some (.invoke kind LibraryMethod.closureInit.ref)) :
    ∃ place other, pc = place + 2 ∧ code[place]? = some (.load 0) ∧
      code[place + 1]? = some (.ldc (.str other)) ∧ other ≠ name := by
  rw [← Array.getElem?_toList] at hi
  obtain ⟨hlt, hget⟩ := List.getElem?_eq_some_iff.1 hi
  have split : code.toList = code.toList.take pc ++
      .invoke kind LibraryMethod.closureInit.ref :: code.toList.drop (pc + 1) := by
    rw [← hget, List.getElem_cons_drop, List.take_append_drop]
  obtain ⟨front, other, hfront, hother⟩ := h.pointers _ kind _ split
  have place : pc = front.length + 2 := by
    have := congrArg List.length hfront
    simp only [List.length_take, List.length_append, List.length_cons, List.length_nil] at this
    omega
  rw [hfront] at split
  refine ⟨front.length, other, place, ?_, ?_, hother⟩
  all_goals
    rw [← Array.getElem?_toList, split]
    simp

end Lowering

namespace Frame

/-- **A frame runs a method on the object at `a`.** -/
structure RunsOn (c : ClassFile) (a : Nat) (f : Frame) : Prop where
  method : ∃ method ∈ c.methods, f.method = method.name ∧ f.code = method.code
  tidy : Tidy "main" f.code.toList
  labels : labelTable f.code = .ok f.labels
  receiver : f.loadLocal 0 = .ref a

/-- **What is on the stack where a function pointer is about to be made**: the receiver, then the
name. -/
structure PointerReady (a : Nat) (f : Frame) : Prop where
  loaded : ∀ kind, f.code[f.pc + 1]? = some (.invoke kind LibraryMethod.closureInit.ref) →
    ∃ rest, f.stack = .ref a :: rest
  named : ∀ kind, f.code[f.pc]? = some (.invoke kind LibraryMethod.closureInit.ref) →
    ∃ ident name rest, f.stack = .text ident name :: .ref a :: rest ∧ name ≠ "main"

variable {c : ClassFile} {a : Nat} {f f' : Frame} {i : Instruction} {w w' : World}

/-- No function pointer is made where a method starts. -/
lemma pointerReady_start (htidy : Tidy "main" f.code.toList) (hpc : f.pc = 0) :
    f.PointerReady a where
  loaded kind hi := by
    obtain ⟨place, _, hplace, -⟩ := htidy.before hi
    omega
  named kind hi := by
    obtain ⟨place, _, hplace, -⟩ := htidy.before hi
    omega

/-- Nor behind a label. -/
lemma pointerReady_label (htidy : Tidy "main" f.code.toList) {l : Label}
    (hlabel : f.code[f.pc]? = some (.label l)) : f.PointerReady a where
  loaded kind hi := by
    obtain ⟨place, _, hplace, -, hname, -⟩ := htidy.before hi
    have here : f.pc = place + 1 := by omega
    simp [← here, hlabel] at hname
  named kind hi := by simp [hlabel] at hi

/-- Behind an instruction there is one, if that loads the receiver or a name. -/
lemma pointerReady_after (htidy : Tidy "main" f.code.toList) {pc : Nat} (hpc : f.pc = pc + 1)
    (hi : f.code[pc]? = some i) (hload : i = .load 0 → ∃ rest, f.stack = .ref a :: rest)
    (hname : ∀ kind name, i = .ldc (.str name) →
      f.code[pc + 1]? = some (.invoke kind LibraryMethod.closureInit.ref) →
      ∃ ident rest, f.stack = .text ident name :: .ref a :: rest) : f.PointerReady a where
  loaded kind hnext := by
    obtain ⟨place, _, hplace, hloads, -⟩ := htidy.before hnext
    obtain rfl : pc = place := by omega
    exact hload (by simpa [hi] using hloads)
  named kind hnext := by
    obtain ⟨place, other, hplace, -, hnames, hother⟩ := htidy.before hnext
    obtain rfl : pc = place + 1 := by omega
    rw [hpc] at hnext
    obtain ⟨ident, rest, hstack⟩ := hname kind other (by simpa [hi] using hnames) hnext
    exact ⟨ident, other, rest, hstack, hother⟩

/-- **An instruction that stays in its frame keeps the receiver** in its slot, and in its place on
the stack. -/
lemma RunsOn.next (hf : f.RunsOn c a) (hready : f.PointerReady a) (hi : f.code[f.pc]? = some i)
    (hexec : f.advanced.execute c i w = (.ok (.next f'), w')) :
    f'.RunsOn c a ∧ f'.PointerReady a := by
  cases execute_transition hexec with
  | next hgoes =>
      have code : f'.code = f.code := hgoes.code
      have spared : i ≠ .store 0 := by
        rintro rfl
        exact hf.tidy.stores (Array.mem_toList_iff.2 (Array.mem_of_getElem? hi))
      have tidy : Tidy "main" f'.code.toList := by rw [code]; exact hf.tidy
      have runs : f'.RunsOn c a := by
        refine ⟨?_, tidy, ?_, (hgoes.locals 0 spared).trans hf.receiver⟩
        · rw [code, hgoes.method]
          exact hf.method
        · rw [code, hgoes.labels]
          exact hf.labels
      refine ⟨runs, ?_⟩
      rcases hgoes.place with hpc | ⟨l, -, hl⟩
      · refine pointerReady_after tidy hpc (by rw [code]; exact hi) ?_ ?_
        · rintro rfl
          obtain ⟨rfl, -⟩ := by simpa [execute] using hexec
          exact ⟨f.stack, congrArg (· :: f.stack) hf.receiver⟩
        · rintro kind name rfl hnext
          obtain ⟨rest, hstack⟩ := hready.loaded kind (by rw [← code]; exact hnext)
          obtain ⟨rfl, -⟩ := by simpa [execute] using hexec
          exact ⟨_, rest, congrArg (_ :: ·) hstack⟩
      · have hlabel : f'.code[f'.pc]? = some (.label l) := by
          rw [code]
          exact (lookup_labelTable hf.labels).1 hl
        exact pointerReady_label tidy hlabel

/-- **A method is entered** on the receiver. -/
lemma runsOn_call {method : Method} (hmethod : method ∈ c.methods)
    (hstatic : method.isStatic = false) (htidy : Tidy "main" method.code.toList) {args : List Value}
    {depth : Nat} {use : ResultUse}
    (hcall : Frame.call method (some (.ref a)) args depth use = .ok f) :
    f.RunsOn c a ∧ f.PointerReady a := by
  rw [Frame.call] at hcall
  split at hcall
  · simp at hcall
  · split at hcall
    · simp at hcall
    · next labels hlabels =>
        obtain rfl := by simpa using hcall
        exact ⟨⟨⟨method, hmethod, rfl, rfl⟩, htidy, hlabels, by simp [loadLocal, hstatic]⟩,
          pointerReady_start htidy rfl⟩

/-- A caller that has its result is as it was, but for its stack. -/
lemma exists_receive (f : Frame) (use : ResultUse) (result : Option Value) :
    ∃ stack, f.receive use result = { f with stack } := by
  cases result with
  | some v => exact ⟨_, rfl⟩
  | none => cases use <;> exact ⟨_, rfl⟩

/-- Behind the call of a function pointer no other is made. -/
lemma RunsOn.waits (hf : f.RunsOn c a) {kind : InvokeKind}
    (hi : f.code[f.pc]? = some (.invoke kind LibraryMethod.closureInvoke.ref)) (rest : List Value)
    (use : ResultUse) (result : Option Value) :
    let caller := receive { f.advanced with stack := rest } use result
    caller.RunsOn c a ∧ caller.PointerReady a := by
  intro caller
  obtain ⟨stack, hcaller⟩ : ∃ stack, caller = { f.advanced with stack } :=
    exists_receive _ use result
  rw [hcaller]
  exact ⟨⟨hf.method, hf.tidy, hf.labels, hf.receiver⟩,
    pointerReady_after hf.tidy rfl hi (by simp) (by simp)⟩

end Frame

/-! ## Runs -/

/-- **A class of the shape the compiler gives it**: the entry point makes an instance, and all other
methods are tidy. -/
structure Assembled (config : Config) (c : ClassFile) : Prop where
  name : c.name = config.className
  apart : ∀ m : LibraryMethod, m.ref.owner ≠ c.name
  main : c.methods.find? (fun m => m.name == "main" && m.isStatic) = some (entryPoint config)
  methods : ∀ method ∈ c.methods, method = entryPoint config ∨
    method.isStatic = false ∧ method.name ≠ "main" ∧ Tidy "main" method.code.toList

/-- A method that is not the entry point is entered on the receiver. -/
lemma Assembled.enters {config : Config} {c : ClassFile} (hc : Assembled config c) {a : Nat}
    {name : String} {method : Method} {callee : Frame}
    (hname : name ≠ "main") (hresolve : c.resolve name = .ok method) {args : List Value}
    {depth : Nat} {use : ResultUse}
    (hcall : Frame.call method (some (.ref a)) args depth use = .ok callee) :
    callee.RunsOn c a ∧ callee.PointerReady a := by
  obtain ⟨hmethod, rfl⟩ := Frame.resolve_ok hresolve
  rcases hc.methods method hmethod with rfl | ⟨hstatic, -, htidy⟩
  · exact absurd rfl hname
  · exact Frame.runsOn_call hmethod hstatic htidy hcall

namespace Machine

variable {config : Config} {c : ClassFile} {a : Nat} {m m' : Machine}

/-- **All frames but the first run methods on the object at `a`**, the waiting ones as soon as they
have their result.  The first is that of the entry point, about to return. -/
def AllRunOn (config : Config) (c : ClassFile) (a : Nat) : List Frame → Frame → Prop
  | [], f => f.method = "main" ∧ f.code = (entryPoint config).code ∧ f.pc = 2
  | caller :: callers, f => (f.RunsOn c a ∧ f.PointerReady a) ∧
      ∀ use result, AllRunOn config c a callers (caller.receive use result)

/-- **A state of a run of the entry point.** -/
inductive EntryRun (config : Config) (c : ClassFile) (m : Machine) : Prop
  /-- The instance is to be made. -/
  | starting : m.world.heap.Bare → m.callers = [] → m.frame.method = "main" →
      m.frame.code = (entryPoint config).code → m.frame.pc = 0 → EntryRun config c m
  /-- The constructor is to be called on it. -/
  | made {a : Nat} {owner : String} {rest : List Value} : m.world.heap.Bare → m.callers = [] →
      m.frame.method = "main" → m.frame.code = (entryPoint config).code → m.frame.pc = 1 →
      m.frame.stack = .ref a :: rest → m.world.heap.get? a = some (.uninit owner) →
      EntryRun config c m
  | running {a : Nat} : m.world.heap.Receiver c a → AllRunOn config c a m.callers m.frame →
      EntryRun config c m

lemma getElem?_entryPoint (config : Config) :
    (entryPoint config).code[0]? = some (.new config.className) ∧
      (entryPoint config).code[1]?
        = some (.invoke .special ⟨config.className, constructorName, "()V"⟩) ∧
      (entryPoint config).code[2]? = some .ret := ⟨rfl, rfl, rfl⟩

lemma arity_constructor (owner : String) : MethodRef.arity ⟨owner, constructorName, "()V"⟩ = 0 := by
  show Descriptor.arity "()V" = 0
  decide

/-- **The constructor is called** on an object that is not initialized, which it marks. -/
lemma execute_construct {f : Frame} {owner : String} {rest : List Value} {w w' : World}
    {control : Control} (hstack : f.stack = .ref a :: rest)
    (hwaiting : w.heap.get? a = some (.uninit owner))
    (hexec : f.execute c (.invoke .special ⟨c.name, constructorName, "()V"⟩) w =
      (.ok control, w')) :
    ∃ method callee, c.resolve constructorName = .ok method ∧
      Frame.call method (some (.ref a)) [] w.depth .ifAny = .ok callee ∧
      control = .enter { f with stack := rest } callee ∧
      w' = { w with heap := w.heap.set a (.inst c.name) }.enter 1 := by
  have called : f.execute c (.invoke .special ⟨c.name, constructorName, "()V"⟩) w
      = Frame.callMember c { f with stack := rest } w constructorName (some (.ref a)) [] := by
    rw [Frame.execute, Frame.invoke, arity_constructor]
    simp [Frame.popArgs, Frame.takeArgs, Frame.pop, hstack, Frame.callMethod]
  rw [called, Frame.callMember, if_pos rfl] at hexec
  split at hexec
  · simp at hexec
  · rw [Heap.construct_of_uninit hwaiting] at hexec
    obtain ⟨method, callee, hresolve, hcall, hcontrol, hworld⟩ := Frame.callOwn_ok hexec
    exact ⟨method, callee, hresolve, hcall, hcontrol, hworld.symm⟩

/-- What the code of a frame that runs on the receiver does to the heap. -/
lemma receiver_execute (hc : Assembled config c) (hreceiver : m.world.heap.Receiver c a)
    (hruns : m.frame.RunsOn c a) (hready : m.frame.PointerReady a) {i : Instruction}
    (hi : m.frame.code[m.frame.pc]? = some i) :
    (m.frame.advanced.execute c i m.world).2.heap.Receiver c a := by
  have changed := m.frame.advanced.execute_change c i m.world
  refine hreceiver.change changed hc.apart ?_ ?_
  · exact hruns.tidy.library i (Array.mem_toList_iff.2 (Array.mem_of_getElem? hi))
  · rintro kind rfl
    exact hready.named kind hi

/-- **A move inside the constructor** keeps the receiver and the frames on it. -/
lemma AllRunOn.moves (hc : Assembled config c) (hreceiver : m.world.heap.Receiver c a)
    (h : AllRunOn config c a m.callers m.frame) {k : Nat} (hmove : Moves c m k m') :
    EntryRun config c m' := by
  cases hcallers : m.callers with
  | nil =>
      -- the entry point returns, and the run ends
      rw [hcallers] at h
      obtain ⟨-, hcode, hpc⟩ := h
      have hret : m.frame.code[m.frame.pc]? = some .ret := by
        rw [hcode, hpc]
        exact (getElem?_entryPoint config).2.2
      cases hmove with
      | fall hnone _ => simp [hret] at hnone
      | execute hi hexec hfollow =>
          obtain rfl : Instruction.ret = _ := by simpa [hret] using hi
          obtain ⟨rfl, -⟩ := by simpa [Frame.execute] using hexec
          simp [follow, hcallers] at hfollow
  | cons caller callers =>
      rw [hcallers] at h
      obtain ⟨⟨hruns, hready⟩, hwaiting⟩ := h
      cases hmove with
      | fall _ hcallers' =>
          obtain ⟨rfl, rfl⟩ := by simpa [hcallers] using hcallers'
          exact .running hreceiver (hwaiting _ _)
      | @execute _ i control w hi hexec hfollow =>
          have hreceiver' := receiver_execute hc hreceiver hruns hready hi
          rw [hexec] at hreceiver'
          cases Frame.execute_transition hexec with
          | next hgoes =>
              obtain rfl : _ = m' := by simpa [follow] using hfollow
              refine .running hreceiver' ?_
              rw [hcallers]
              exact ⟨hruns.next hready hi hexec, hwaiting⟩
          | apply hinvoke hpointer hresolve hcall =>
              obtain rfl : _ = m' := by simpa [follow] using hfollow
              obtain ⟨rfl, hname⟩ := hreceiver.pointers _ _ _ hpointer
              rw [hinvoke] at hi
              refine .running hreceiver' ⟨hc.enters hname hresolve hcall, fun use result => ?_⟩
              rw [hcallers]
              exact ⟨hruns.waits hi _ use result, hwaiting⟩
          | member hinvoke howner _ _ _ _ =>
              obtain ⟨found, rfl⟩ := hruns.tidy.library i
                (Array.mem_toList_iff.2 (Array.mem_of_getElem? hi)) _ _ hinvoke
              exact absurd howner (hc.apart found)
          | leave _ =>
              obtain rfl : _ = m' := by simpa [follow, hcallers] using hfollow
              exact .running hreceiver' (hwaiting _ _)

/-- **Every move of a run of the entry point keeps to one receiver.** -/
lemma EntryRun.moves (hc : Assembled config c) (h : EntryRun config c m) {k : Nat}
    (hmove : Moves c m k m') : EntryRun config c m' := by
  cases h with
  | starting hbare hcallers hmethod hcode hpc =>
      have hnew : m.frame.code[m.frame.pc]? = some (.new config.className) := by
        rw [hcode, hpc]
        exact (getElem?_entryPoint config).1
      cases hmove with
      | fall hnone _ => simp [hnew] at hnone
      | execute hi hexec hfollow =>
          obtain rfl : Instruction.new config.className = _ := by simpa [hnew] using hi
          obtain ⟨rfl, rfl⟩ := by simpa [Frame.execute] using hexec
          obtain rfl : _ = m' := by simpa [follow] using hfollow
          have waiting : (m.world.heap.alloc (.uninit config.className)).2.get?
              m.world.heap.objects.size = some (.uninit config.className) := by simp
          refine .made (hbare.alloc config.className) hcallers hmethod hcode ?_ rfl waiting
          show m.frame.pc + 1 = 1
          rw [hpc]
  | made hbare hcallers hmethod hcode hpc hstack hwaiting =>
      have hinvoke : m.frame.code[m.frame.pc]?
          = some (.invoke .special ⟨c.name, constructorName, "()V"⟩) := by
        rw [hcode, hpc, hc.name]
        exact (getElem?_entryPoint config).2.1
      cases hmove with
      | fall hnone _ => simp [hinvoke] at hnone
      | execute hi hexec hfollow =>
          obtain rfl : Instruction.invoke _ _ = _ := by simpa [hinvoke] using hi
          obtain ⟨method, callee, hresolve, hcall, rfl, rfl⟩ :=
            execute_construct (f := m.frame.advanced) hstack hwaiting hexec
          obtain rfl : _ = m' := by simpa [follow] using hfollow
          refine .running (hbare.receiver hwaiting)
            ⟨hc.enters (by decide) hresolve hcall, fun use result => ?_⟩
          rw [hcallers]
          obtain ⟨stack, hcaller⟩ := Frame.exists_receive _ use result
          rw [hcaller]
          refine ⟨hmethod, hcode, ?_⟩
          show m.frame.pc + 1 = 2
          rw [hpc]
  | running hreceiver hframes => exact hframes.moves hc hreceiver hmove

/-- The heap of a state, and the heap behind its next instruction, even if that fails. -/
lemma EntryRun.single (h : EntryRun config c m) : m.world.heap.Single c := by
  cases h with
  | starting hbare | made hbare => exact hbare.single
  | running hreceiver _ => exact hreceiver.single

lemma EntryRun.single_execute (hc : Assembled config c) (h : EntryRun config c m) {i : Instruction}
    (hi : m.frame.code[m.frame.pc]? = some i) :
    (m.frame.advanced.execute c i m.world).2.heap.Single c := by
  have changed := m.frame.advanced.execute_change c i m.world
  cases h with
  | starting hbare _ _ hcode hpc =>
      rw [hcode, hpc, (getElem?_entryPoint config).1, Option.some_inj] at hi
      subst hi
      exact (hbare.alloc config.className).single
  | @made a _ rest hbare _ _ hcode hpc hstack _ =>
      rw [hcode, hpc, (getElem?_entryPoint config).2.1, Option.some_inj, ← hc.name] at hi
      subst hi
      -- the constructor takes no arguments, so its receiver is on top of the stack
      have only : ∀ b owner, (m.frame.advanced.execute c
          (.invoke .special ⟨c.name, constructorName, "()V"⟩) m.world).2.heap.get? b
            = some (.inst owner) → b = a := by
        intro b owner hb
        rcases changed.inst hb with hold | ⟨_, method, args, _, hinvoke, -, hargs, harity⟩
        · exact absurd hold (hbare.inst b owner)
        · obtain ⟨-, rfl⟩ := Instruction.invoke.inj hinvoke
          rw [arity_constructor, List.length_eq_zero_iff] at harity
          subst harity
          have same : Value.ref a :: rest = .ref b :: _ := hstack.symm.trans hargs
          simpa [eq_comm] using (List.cons.inj same).1
      refine ⟨fun b b' owner owner' hb hb' => ?_, fun b receiver name hb => ?_⟩
      · rw [only b owner hb, only b' owner' hb']
      · rcases changed.closure hb with hold | ⟨kind, _, _, hinvoke, -⟩
        · exact absurd hold (hbare.pointers b receiver name)
        · obtain ⟨-, hmethod⟩ := Instruction.invoke.inj hinvoke
          exact absurd (congrArg MethodRef.owner hmethod.symm) (hc.apart .closureInit)
  | running hreceiver hframes =>
      cases hcallers : m.callers with
      | nil =>
          rw [hcallers] at hframes
          obtain ⟨-, hcode, hpc⟩ := hframes
          rw [hcode, hpc, (getElem?_entryPoint config).2.2, Option.some_inj] at hi
          subst hi
          exact hreceiver.single
      | cons caller callers =>
          rw [hcallers] at hframes
          exact (receiver_execute hc hreceiver hframes.1.1 hframes.1.2 hi).single

/-- **A run ends** with one receiver too. -/
lemma EntryRun.single_run (hc : Assembled config c) (h : EntryRun config c m)
    (limit budget taken : Nat) : (run c limit budget taken m).world.heap.Single c := by
  have ended := run_ends c limit budget taken m
  generalize run c limit budget taken m = e at ended
  cases ended with
  | stops hleads hstops _ =>
      have reached := hleads.preserves (fun hm hmove => hm.moves hc hmove) h
      cases hstops with
      | fault hi hexec | exit hi hexec _ =>
          have single := reached.single_execute hc hi
          rw [hexec] at single
          exact single
      | fall _ _ => exact reached.single
  | limit hleads _ => exact (hleads.preserves (fun hm hmove => hm.moves hc hmove) h).single

/-- What a frame of a run is: that of the entry point, or one on the receiver. -/
lemma AllRunOn.mem {f : Frame} {callers : List Frame} (h : AllRunOn config c a callers f)
    {g : Frame} (hg : g ∈ f :: callers) :
    g.method = "main" ∧ g.code = (entryPoint config).code ∨ g.RunsOn c a := by
  induction callers generalizing f with
  | nil =>
      obtain rfl : g = f := by simpa using hg
      exact .inl ⟨h.1, h.2.1⟩
  | cons caller callers ih =>
      rcases List.mem_cons.1 hg with rfl | hg
      · exact .inr h.1.1
      · exact ih (h.2 .ifAny none) hg

/-- **The frames of a run** are of methods of the class, and those of methods that are not static
are on the receiver. -/
lemma EntryRun.frames (hc : Assembled config c) (h : EntryRun config c m) {f : Frame}
    (hf : f ∈ m.frame :: m.callers) :
    (∃ method ∈ c.methods, f.method = method.name ∧ f.code = method.code) ∧
      ∀ method ∈ c.methods, method.isStatic = false → f.method = method.name →
        ∃ a, m.world.heap.get? a = some (.inst c.name) ∧ f.loadLocal 0 = .ref a := by
  have entry : f.method = "main" ∧ f.code = (entryPoint config).code →
      (∃ method ∈ c.methods, f.method = method.name ∧ f.code = method.code) ∧
        ∀ method ∈ c.methods, method.isStatic = false → f.method ≠ method.name := by
    rintro ⟨hmethod, hcode⟩
    refine ⟨⟨entryPoint config, List.mem_of_find?_eq_some hc.main, hmethod, hcode⟩, ?_⟩
    intro method hmem hstatic hname
    rcases hc.methods method hmem with rfl | ⟨-, hmain, -⟩
    · cases hstatic
    · exact hmain (hname.symm.trans hmethod)
  have settled : f.method = "main" ∧ f.code = (entryPoint config).code ∨
      ∃ a, m.world.heap.Receiver c a ∧ f.RunsOn c a := by
    cases h with
    | starting _ hcallers hmethod hcode | made _ hcallers hmethod hcode =>
        obtain rfl : f = m.frame := by simpa [hcallers] using hf
        exact .inl ⟨hmethod, hcode⟩
    | running hreceiver hframes =>
        rcases hframes.mem hf with hmain | hruns
        · exact .inl hmain
        · exact .inr ⟨_, hreceiver, hruns⟩
  rcases settled with hmain | ⟨a, hreceiver, hruns⟩
  · obtain ⟨hmethod, hother⟩ := entry hmain
    exact ⟨hmethod, fun method hmem hstatic hname => absurd hname (hother method hmem hstatic)⟩
  · exact ⟨hruns.method, fun _ _ _ _ => ⟨a, hreceiver.inst, hruns.receiver⟩⟩

end Machine

/-! ## Programs -/

lemma assembled_of_assemble {p : CheckedProgram} {config : Config} {c : ClassFile} {issued : Nat}
    (h : assemble p config = .ok (c, issued))
    (apart : ∀ m : LibraryMethod, m.ref.owner ≠ config.className) (hspares : p.Spares "main") :
    Assembled config c where
  name := name_of_assemble h
  apart := by rw [name_of_assemble h]; exact apart
  main := by
    obtain ⟨-, functions, shared, code, -, -, rfl⟩ := assemble_ok_iff.1 h
    rfl
  methods := tidy_of_assemble h hspares (by decide)

lemma bare_empty : ({} : Heap).Bare where
  inst a owner hobj := by simp [Heap.get?] at hobj
  pointers a receiver name hobj := by simp [Heap.get?] at hobj

open Machine in
/-- **One receiver for all code.**  Take a class that is assembled under a name that no class of the
library has, from a program that has no function, and makes no function pointer, called like the
entry point.  No method stores into slot 0.  In each state of a run of the entry point from an empty
heap, and where the run ends, under any step limit, there is one instance at most, and all function
pointers have it as their receiver.  Each frame is of a method of the class, and has the instance in
slot 0 unless the method is static. -/
theorem one_receiver {p : CheckedProgram} {config : Config} {c : ClassFile} {issued : Nat}
    (h : assemble p config = .ok (c, issued))
    (apart : ∀ m : LibraryMethod, m.ref.owner ≠ config.className) (hspares : p.Spares "main")
    (limit : Nat) :
    (∀ method ∈ c.methods, .store 0 ∉ method.code) ∧
      ((Session.fresh c {} limit).answer .main).2.world.heap.Single c ∧
      ∀ first, (Session.fresh c {} limit).opening .main = .ok first →
        ∀ n m, Leads c first n m →
          m.world.heap.Single c ∧ ∀ f ∈ m.frame :: m.callers,
            (∃ method ∈ c.methods, f.method = method.name ∧ f.code = method.code) ∧
            ∀ method ∈ c.methods, method.isStatic = false → f.method = method.name →
              ∃ a, m.world.heap.get? a = some (.inst c.name) ∧ f.loadLocal 0 = .ref a := by
  have hc := assembled_of_assemble h apart hspares
  have opened : ∀ first, (Session.fresh c {} limit).opening .main = .ok first →
      EntryRun config c first := by
    intro first hfirst
    obtain ⟨frame, hframe, rfl⟩ := Session.opening_eq_ok.1 hfirst
    obtain ⟨hmethod, hcode, hpc⟩ : frame.method = "main" ∧ frame.code = (entryPoint config).code ∧
        frame.pc = 0 := by
      simp only [Session.firstFrame, Session.fresh, hc.main] at hframe
      obtain rfl : _ = frame := Except.ok.inj hframe
      exact ⟨rfl, rfl, rfl⟩
    exact .starting bare_empty rfl hmethod hcode hpc
  refine ⟨?_, ?_, ?_⟩
  · intro method hmethod
    rcases hc.methods method hmethod with rfl | ⟨-, -, htidy⟩
    · intro hstore
      rcases Array.mem_toList_iff.2 hstore with _ | ⟨_, _ | ⟨_, _ | ⟨_, ⟨⟩⟩⟩⟩
    · exact fun hstore => htidy.stores (Array.mem_toList_iff.2 hstore)
  · cases hfirst : (Session.fresh c {} limit).opening .main with
    | error e =>
        rw [Session.answer_of_error hfirst]
        exact bare_empty.single
    | ok first =>
        rw [Session.answer_of_opening hfirst]
        exact (opened first hfirst).single_run hc _ _ _
  · intro first hfirst n m hleads
    have reached : EntryRun config c m :=
      hleads.preserves (fun hm hmove => hm.moves hc hmove) (opened first hfirst)
    exact ⟨reached.single, fun f hf => reached.frames hc hf⟩

/-- A function that is called round after round: each call makes a function pointer of its own. -/
theorem one_receiver_tallyProgram :
    ∃ c issued, assemble tallyProgram {} = .ok (c, issued) ∧ tallyProgram.Spares "main" ∧
      (let heap := ((Session.fresh c {} 500).answer .main).2.world.heap
       heap.Single c ∧ heap.get? 0 = some (.inst "Main") ∧
         heap.get? 3 = some (.closure (.ref 0) "tally")) := by
  have made : ((assemble tallyProgram {}).toOption.map fun r =>
      [0, 3].map ((Session.fresh r.1 {} 500).answer .main).2.world.heap.get?)
        = some [some (.inst "Main"), some (.closure (.ref 0) "tally")] := by
    decide +kernel
  have spares : tallyProgram.Spares "main" :=
    CheckedProgram.spares_of_unbound (by decide +kernel) (by decide +kernel)
  cases h : assemble tallyProgram {} with
  | error e => simp [h, Except.toOption] at made
  | ok r =>
      rw [h] at made
      refine ⟨r.1, r.2, rfl, spares, (one_receiver h apart_Main spares 500).2.1, ?_⟩
      simpa [Except.toOption] using made

end StackBackend
