import StackBackend.Proofs.Machine.Requests
import StackBackend.Proofs.Machine.Transitions

/-!
# References lead to objects

Addresses come from making objects, and objects are never taken away.  So a run that starts with
references that lead to objects has no others, whatever code it runs: nothing about the class, the
code or the order of lists on the heap is needed for it.

* `Frame.Grounded`, `Machine.Grounded` — what a frame, and a whole state, refers to is there;
* `Frame.execute_grounded` — what an instruction leads to;
* `Machine.Grounded.of_moves`, `Machine.Grounded.of_leads` — one move, and any run;
* `Request.Grounded`, `Session.grounded_of_opening` — what a session is asked for;
* `Session.grounded_answer` — the heap after a request, so that one request may follow another.
-/

namespace StackBackend

open Heap

/-! ## Frames -/

/-- **What a frame refers to is there**, and its labels are those of its code. -/
structure Frame.Grounded (h : Heap) (f : Frame) : Prop where
  located : labelTable f.code = .ok f.labels
  stack : ∀ v ∈ f.stack, h.Sees ∅ v
  locals : ∀ slot : Nat, h.Sees ∅ (f.locals[slot]?.getD .null)

/-- The frames that control goes on with, and a result that is on its way. -/
def Control.Grounded (h : Heap) : Control → Prop
  | next frame => frame.Grounded h
  | enter caller callee => caller.Grounded h ∧ callee.Grounded h
  | leave frame result => frame.Grounded h ∧ ∀ v ∈ result, h.Sees ∅ v

namespace Frame

variable {c : ClassFile} {f : Frame} {h h' : Heap} {w w' : World} {i : Instruction}

lemma Grounded.mono (hf : f.Grounded h) (hgrows : h.objects.size ≤ h'.objects.size) :
    f.Grounded h' :=
  ⟨hf.located, fun v hv => (hf.stack v hv).mono hgrows subset_rfl,
    fun slot => (hf.locals slot).mono hgrows subset_rfl⟩

lemma Grounded.with_stack (hf : f.Grounded h) {stack : List Value}
    (hstack : ∀ v ∈ stack, h.Sees ∅ v) : Grounded h { f with stack } :=
  ⟨hf.located, hstack, hf.locals⟩

lemma Grounded.receive (hf : f.Grounded h) {use : ResultUse} {result : Option Value}
    (hresult : ∀ v ∈ result, h.Sees ∅ v) : (f.receive use result).Grounded h := by
  cases result with
  | none =>
      cases use with
      | ifAny => exact hf
      | orNull => exact hf.with_stack (by simpa using hf.stack)
  | some v => exact hf.with_stack (by simpa using ⟨hresult v rfl, hf.stack⟩)

/-- A method that is entered finds the receiver and the arguments in its slots. -/
lemma grounded_of_call {method : Method} {receiver : Option Value} {args : List Value} {depth : Nat}
    {use : ResultUse} {callee : Frame}
    (hcall : Frame.call method receiver args depth use = .ok callee)
    (hargs : ∀ v ∈ receiver.getD .null :: args, h.Sees ∅ v) : callee.Grounded h := by
  obtain ⟨labels, hlabels, rfl⟩ := call_ok hcall
  exact ⟨hlabels, by simp, method.sees_entryLocals hargs⟩

end Frame

/-! ## Instructions -/

/-- **A change of the heap keeps references leading to objects**, and takes no object away. -/
lemma Heap.Change.grounded {c : ClassFile} {h h' : Heap} {stack : List Value} {i : Instruction}
    (hchange : h.Change c stack i h') (hgrounded : h.Guards ∅)
    (hstack : ∀ v ∈ stack, h.Sees ∅ v) :
    h'.Guards ∅ ∧ h.objects.size ≤ h'.objects.size := by
  have sealed : h.Sealed ∅ := ⟨hgrounded, hgrounded, by simp⟩
  cases hchange with
  | none => exact ⟨hgrounded, Nat.le_refl _⟩
  | text content => exact ⟨(sealed.newText content).grounded, Nat.le_refl _⟩
  | make owner => exact ⟨(sealed.alloc (by simp [Obj.values])).grounded, by simp [size_alloc]⟩
  | @init _ a owner obj hold hbuilds =>
      refine ⟨(sealed.set hold ?_).grounded, by rw [size_set]⟩
      cases hbuilds with
      | array | inst => simp [Obj.values]
      | @list _ b _ _ hops _ => simpa [Obj.values] using hstack (.ref b) (by simp [hops])
      | @closure _ _ _ receiver _ hops => simpa [Obj.values] using hstack receiver (by simp [hops])
  | @copy _ a owner source items rest hops hold hitems =>
      refine ⟨(sealed.wrapCopy hold ?_).grounded, by rw [size_wrapCopy]; omega⟩
      exact sees_itemsWithin hgrounded (hstack source (by simp [hops])) hitems
  | @add _ a items v rest hops hitems =>
      refine ⟨(sealed.set hitems ?_).grounded, by rw [size_set]⟩
      exact sees_push sealed hitems (by simp) (hstack v (by simp [hops]))
  | @assign _ l a place index items v rest hops _ hitems _ =>
      refine ⟨(sealed.set hitems ?_).grounded, by rw [size_set]⟩
      exact sees_setIfInBounds sealed hitems (by simp) (hstack v (by simp [hops])) place

namespace Frame

variable {c : ClassFile} {f : Frame} {w w' : World} {i : Instruction} {control : Control}

lemma Acts.grounded {f' : Frame} (hacts : f.Acts w i f' w') (hheap : w.heap.Guards ∅)
    (hf : f.Grounded w.heap) (hgrows : w.heap.objects.size ≤ w'.heap.objects.size) :
    f'.Grounded w'.heap := by
  have sealed : w.heap.Sealed ∅ := ⟨hheap, hheap, by simp⟩
  have proceeded := hacts.proceeds sealed (fun v hv => hf.stack v (List.mem_of_mem_take hv))
    fun slot _ => hf.locals slot
  have continued := hacts.continues
  obtain ⟨results, hstack, -, hresults⟩ := proceeded.stack
  refine ⟨by rw [continued.code, continued.labels]; exact hf.located, ?_, fun slot => ?_⟩
  · intro v hv
    rw [hstack] at hv
    rcases List.mem_append.1 hv with hv | hv
    · exact hresults v hv
    · exact (hf.stack v (List.mem_of_mem_drop hv)).mono hgrows subset_rfl
  · rcases proceeded.locals slot with hsame | ⟨-, hv⟩
    · rw [hsame]
      exact (hf.locals slot).mono hgrows subset_rfl
    · exact hv

lemma callLibrary_grounded {m : LibraryMethod} {receiver : Option Value} {args : List Value}
    (hcall : f.callLibrary c w m receiver args = (.ok control, w')) (hheap : w.heap.Guards ∅)
    (hf : f.Grounded w.heap) (hgrows : w.heap.objects.size ≤ w'.heap.objects.size)
    (hreceiver : w.heap.Sees ∅ (receiver.getD .null)) (hargs : ∀ v ∈ args, w.heap.Sees ∅ v) :
    control.Grounded w'.heap := by
  have grown : ∀ {v}, w.heap.Sees ∅ v → w'.heap.Sees ∅ v := fun hv => hv.mono hgrows subset_rfl
  rw [callLibrary] at hcall
  split at hcall
  · simp at hcall
  · next result heap hperform =>
      have seen := LibraryMethod.perform_sees hperform hheap hreceiver hargs
      obtain ⟨rfl, rfl⟩ := by simpa using hcall
      refine (hf.mono hgrows).receive fun v hv => grown (seen v ?_)
      simpa [Reply.values] using hv
  · obtain ⟨rfl, rfl⟩ := by simpa using hcall
    exact hf.mono hgrows
  · next this name items heap hperform =>
      have seen := LibraryMethod.perform_sees hperform hheap hreceiver hargs
      obtain ⟨method, callee, -, hcallee, rfl, -⟩ := callOwn_ok hcall
      exact ⟨hf.mono hgrows, grounded_of_call hcallee fun v hv => grown (seen v hv)⟩

lemma invoke_grounded {kind : InvokeKind} {method : MethodRef}
    (hinvoke : f.invoke c w kind method = (.ok control, w')) (hheap : w.heap.Guards ∅)
    (hf : f.Grounded w.heap) (hgrows : w.heap.objects.size ≤ w'.heap.objects.size) :
    control.Grounded w'.heap := by
  rcases f.invoke_split (c := c) (w := w) kind method with
    hshort | ⟨receiver, args, rest, hstack, -, -, hcall⟩
  · simp [hshort] at hinvoke
  · have ops : ∀ v ∈ args.reverse ++ receiver.toList ++ rest, w.heap.Sees ∅ v := hstack ▸ hf.stack
    have hargs : ∀ v ∈ args, w.heap.Sees ∅ v := fun v hv => ops v (by simp [hv])
    have hreceiver : w.heap.Sees ∅ (receiver.getD .null) := by
      cases receiver with
      | none => exact sees_null
      | some this => exact ops this (by simp)
    have hrest : Grounded w.heap { f with stack := rest } :=
      hf.with_stack fun v hv => ops v (by simp [hv])
    rw [hcall, callMethod] at hinvoke
    split at hinvoke
    · obtain ⟨found, callee, -, hcallee, rfl⟩ := callMember_ok hinvoke
      refine ⟨hrest.mono hgrows, grounded_of_call hcallee fun v hv => ?_⟩
      rcases List.mem_cons.1 hv with rfl | hv
      · exact hreceiver.mono hgrows subset_rfl
      · exact (hargs v hv).mono hgrows subset_rfl
    · split at hinvoke
      · exact callLibrary_grounded hinvoke hheap hrest hgrows hreceiver hargs
      · simp at hinvoke

/-- **Where an instruction leads, references lead to objects**, if they did before. -/
theorem execute_grounded (hexec : f.execute c i w = (.ok control, w')) (hheap : w.heap.Guards ∅)
    (hf : f.Grounded w.heap) : control.Grounded w'.heap := by
  obtain ⟨-, hgrows⟩ := (execute_change c f i w).grounded hheap hf.stack
  rw [hexec] at hgrows
  rcases execute_cases hexec with
    ⟨kind, method, rfl, hinvoke⟩ | ⟨rest, result, -, hstack, rfl, rfl⟩ | ⟨f', rfl, hacts⟩
  · exact invoke_grounded hinvoke hheap hf hgrows
  · have ops : ∀ v ∈ Option.toList result ++ rest, w'.heap.Sees ∅ v := hstack ▸ hf.stack
    exact ⟨hf.with_stack fun v hv => ops v (by simp [hv]), fun v hv => ops v (by simp_all)⟩
  · exact hacts.grounded hheap hf hgrows

end Frame

/-! ## Runs -/

/-- **What a state refers to is there.** -/
structure Machine.Grounded (m : Machine) : Prop where
  heap : m.world.heap.Guards ∅
  frame : m.frame.Grounded m.world.heap
  callers : ∀ f ∈ m.callers, f.Grounded m.world.heap

namespace Machine

variable {c : ClassFile} {m m' : Machine} {k n : Nat}

/-- What the heap is after an instruction, even one that fails. -/
lemma Grounded.of_execute (hm : m.Grounded) {i : Instruction} {result : Except Fault Control}
    {w : World} (hexec : m.frame.advanced.execute c i m.world = (result, w)) :
    w.heap.Guards ∅ ∧ m.world.heap.objects.size ≤ w.heap.objects.size := by
  have changed := Frame.execute_change c m.frame.advanced i m.world
  rw [hexec] at changed
  exact changed.grounded hm.heap hm.frame.stack

/-- **One move** keeps references leading to objects. -/
lemma Grounded.of_moves (hm : m.Grounded) (h : Moves c m k m') : m'.Grounded := by
  cases h with
  | @execute _ i control w hi hexec hfollow =>
      obtain ⟨hheap, hgrows⟩ := hm.of_execute hexec
      have advanced : m.frame.advanced.Grounded m.world.heap :=
        ⟨hm.frame.located, hm.frame.stack, hm.frame.locals⟩
      have control_grounded := Frame.execute_grounded hexec hm.heap advanced
      have waiting : ∀ f ∈ m.callers, f.Grounded w.heap := fun f hf => (hm.callers f hf).mono hgrows
      cases control with
      | next frame =>
          obtain rfl := Except.ok.inj hfollow
          exact ⟨hheap, control_grounded, waiting⟩
      | enter caller callee =>
          obtain rfl := Except.ok.inj hfollow
          refine ⟨hheap, control_grounded.2, fun f hf => ?_⟩
          rcases List.mem_cons.1 hf with rfl | hf
          · exact control_grounded.1
          · exact waiting f hf
      | leave frame result =>
          cases hcallers : m.callers with
          | nil => simp [hcallers, follow] at hfollow
          | cons caller callers =>
              rw [hcallers] at hfollow waiting
              obtain rfl := Except.ok.inj hfollow
              exact ⟨hheap, (waiting caller (by simp)).receive control_grounded.2,
                fun f hf => waiting f (by simp [hf])⟩
  | @fall caller callers _ hcallers =>
      have waiting := hm.callers
      rw [hcallers] at waiting
      exact ⟨hm.heap, (waiting caller (by simp)).receive (by simp),
        fun f hf => waiting f (by simp [hf])⟩

/-- **So does every run.** -/
theorem Grounded.of_leads (hm : m.Grounded) (h : Leads c m n m') : m'.Grounded :=
  h.preserves Grounded.of_moves hm

lemma Grounded.of_stops (hm : m.Grounded) {result : Except Fault Outcome} {w : World}
    (h : Stops c m k result w) : w.heap.Guards ∅ := by
  cases h with
  | fault _ hexec => exact (hm.of_execute hexec).1
  | exit _ hexec _ => exact (hm.of_execute hexec).1
  | fall _ _ => exact hm.heap

end Machine

/-! ## Requests -/

/-- **What a request hands in is there.** -/
def Request.Grounded (h : Heap) : Request → Prop
  | .main => True
  | .invoke receiver _ args => ∀ v ∈ receiver :: args, h.Sees ∅ v
  | .fragment _ locals => ∀ slot : Nat, h.Sees ∅ (locals[slot]?.getD .null)

namespace Session

variable {s : Session} {request : Request}

lemma grounded_of_firstFrame (hrequest : request.Grounded s.world.heap) {frame : Frame}
    (hframe : s.firstFrame request = .ok frame) : frame.Grounded s.world.heap := by
  cases request with
  | main =>
      rw [firstFrame] at hframe
      split at hframe
      · cases hframe
      · exact Frame.grounded_of_call hframe (by simp)
  | invoke receiver name args =>
      obtain ⟨method, -, hcall⟩ := bind_ok hframe
      exact Frame.grounded_of_call hcall hrequest
  | fragment code locals =>
      rw [firstFrame, Frame.fragment] at hframe
      split at hframe
      · cases hframe
      · next labels hlabels =>
          obtain rfl := Except.ok.inj hframe
          exact ⟨hlabels, by simp, hrequest⟩

/-- **A request starts with references that lead to objects.** -/
lemma grounded_of_opening (hheap : s.world.heap.Guards ∅) (hrequest : request.Grounded s.world.heap)
    {first : Machine} (hfirst : s.opening request = .ok first) : first.Grounded := by
  obtain ⟨frame, hframe, rfl⟩ := opening_eq_ok.1 hfirst
  exact ⟨hheap, grounded_of_firstFrame hrequest hframe, by simp⟩

/-- **After a request references lead to objects**, however its run ended. -/
theorem grounded_answer (hheap : s.world.heap.Guards ∅)
    (hrequest : request.Grounded s.world.heap) : (s.answer request).2.world.heap.Guards ∅ := by
  cases hfirst : s.opening request with
  | error e =>
      rw [answer_of_error hfirst]
      exact hheap
  | ok first =>
      have started := grounded_of_opening hheap hrequest hfirst
      rw [answer_of_opening hfirst]
      have ends := Machine.run_ends s.classFile s.stepLimit (s.stepLimit - s.steps) s.steps first
      generalize Machine.run s.classFile s.stepLimit (s.stepLimit - s.steps) s.steps first =
        e at ends
      cases ends with
      | stops hleads hstops _ =>
          have ended := (started.of_leads hleads).of_stops hstops
          exact ended
      | limit hleads _ => exact (started.of_leads hleads).heap

end Session

end StackBackend
