import StackBackend.Proofs.Lowering.Slots
import StackBackend.Proofs.Storage.Arrays

/-!
# Calling a function pointer

A call of a function pointer opens a frame for its method, with the receiver and the items of an
array as locals, and the calling frame waits until that one is left.

* `Site.AtReturn r result` — a frame is about to be left with a result;
* `Site.Returns hidden n p` — every run of a frame from `p` is inside the frame, or has come to
  where it is left, and nothing hidden has been touched;
* `ClassFile.SparesHidden c n` — every method of a class does so for `n` steps;
* `Site.Invokes` — a whole call, from entering the method to the result on the caller's stack.

`passing_invoke` carries out a call.  It takes a step, so that a call of `n` steps needs methods
that spare what is hidden for fewer.
-/

namespace StackBackend

open Heap

/-- What a caller pushes of the result of a call. -/
def ResultUse.pushed : ResultUse → Option Value → List Value
  | _, some v => [v]
  | orNull, none => [.null]
  | ifAny, none => []

namespace Site

/-! ## Leaving a frame -/

/-- **A frame is about to be left** with a result, or without one. -/
inductive AtReturn (s : Site) (r : Point) : Option Value → Prop
  | ret : s.code[r.pc]? = some .ret → AtReturn s r none
  | value {v : Value} {rest : List Value} : s.code[r.pc]? = some .retValue → r.stack = v :: rest →
      AtReturn s r (some v)
  | fall : s.code[r.pc]? = none → AtReturn s r none

variable {s : Site} {p q r : Point} {n k : Nat} {hidden kept : Set Nat} {result : Option Value}

lemma sound_atReturn (hclear : r.Clear hidden kept) (h : s.AtReturn r result) :
    Machine.Sound s.classFile (s.machine r) := by
  cases h with
  | ret hcode | value hcode _ =>
      exact sound_of_clear hclear hcode (by simp [Instruction.IsLibrary]) (by simp [Frame.filled])
  | fall hnone =>
      refine ⟨s.located, hclear.stack, hclear.held, hclear.sealed.grounded, fun i hi => ?_⟩
      have absent : s.code[r.pc]? = some i := hi
      simp [hnone] at absent

/-- The caller goes on with the result. -/
lemma moves_atReturn (h : s.AtReturn r result) {caller : Frame} {callers : List Frame}
    (hcallers : s.callers = caller :: callers) {m : Machine}
    (hmove : Machine.Moves s.classFile (s.machine r) k m) :
    m = { frame := caller.receive s.use result, callers, world := r.world.leave 1 } := by
  cases hmove with
  | @execute _ i control w hi hexec hfollow =>
      have hcode : s.code[r.pc]? = some i := hi
      rw [show (s.machine r).callers = caller :: callers from hcallers] at hfollow
      cases h with
      | ret hret =>
          obtain rfl : .ret = i := Option.some.inj (hret.symm.trans hcode)
          obtain ⟨rfl, rfl⟩ := by simpa [Frame.execute] using hexec
          exact (Except.ok.inj hfollow).symm
      | value hret hstack =>
          obtain rfl : .retValue = i := Option.some.inj (hret.symm.trans hcode)
          obtain ⟨rfl, rfl⟩ := by
            simpa [Frame.execute, Frame.pop, Frame.advanced, machine, frame, hstack] using hexec
          exact (Except.ok.inj hfollow).symm
      | fall hnone => simp [hnone] at hcode
  | @fall caller' callers' hnone hcallers' =>
      have absent : s.code[r.pc]? = none := hnone
      obtain ⟨rfl, rfl⟩ : caller' = caller ∧ callers' = callers := by
        simpa [machine, hcallers, eq_comm] using hcallers'
      cases h with
      | ret hcode | value hcode _ => simp [absent] at hcode
      | fall _ => rfl

/-- Without a caller, the run is over. -/
lemma not_moves_atReturn (h : s.AtReturn r result) (hcallers : s.callers = []) {m : Machine} :
    ¬ Machine.Moves s.classFile (s.machine r) k m := by
  intro hmove
  cases hmove with
  | @execute _ i control w hi hexec hfollow =>
      have hcode : s.code[r.pc]? = some i := hi
      rw [show (s.machine r).callers = [] from hcallers] at hfollow
      cases h with
      | ret hret =>
          obtain rfl : .ret = i := Option.some.inj (hret.symm.trans hcode)
          obtain ⟨rfl, rfl⟩ := by simpa [Frame.execute] using hexec
          simp [Machine.follow] at hfollow
      | value hret hstack =>
          obtain rfl : .retValue = i := Option.some.inj (hret.symm.trans hcode)
          obtain ⟨rfl, rfl⟩ := by
            simpa [Frame.execute, Frame.pop, Frame.advanced, machine, frame, hstack] using hexec
          simp [Machine.follow] at hfollow
      | fall hnone => simp [hnone] at hcode
  | fall _ hcallers' => simp [machine, hcallers] at hcallers'

/-- A frame is about to be left, and nothing hidden has been touched since `p`. -/
def Leaving (s : Site) (hidden : Set Nat) (p r : Point) : Prop :=
  ∃ result, s.AtReturn r result ∧ r.Clear hidden ∅ ∧ Kept hidden p.world.heap r.world.heap ∧
    ∀ v ∈ result, r.world.heap.Sees hidden v

/-- **A frame runs until it is left**, and touches nothing hidden. -/
def Returns (s : Site) (hidden : Set Nat) (n : Nat) (p : Point) : Prop :=
  s.Passing 0 (s.code.size + 1) n p (s.Leaving hidden p)

end Site

/-- **Methods that touch nothing hidden from their locals**, for a number of steps. -/
def ClassFile.SparesHidden (c : ClassFile) (n : Nat) : Prop :=
  ∀ (s : Site) (hidden : Set Nat) (p : Point), s.classFile = c →
    (∃ method ∈ c.methods, s.code = method.code) → p.pc = 0 → p.stack = [] → p.Clear hidden ∅ →
    s.Returns hidden n p

/-! ## Entering a method -/

namespace Frame

variable {c : ClassFile} {f : Frame} {w : World}

/-- **Calling a function pointer** is calling its method. -/
lemma execute_closureInvoke (apart : ∀ m : LibraryMethod, m.ref.owner ≠ c.name)
    {array target : Value} {rest : List Value} (hstack : f.stack = array :: target :: rest)
    {receiver : Value} {name : String}
    (hclosure : w.heap.object? target = some (.closure receiver name)) {items : Array Value}
    (hitems : w.heap.items? array = some items) :
    f.execute c (.callVirtual .closureInvoke) w
      = { f with stack := rest }.callOwn c w name (some receiver) items.toList .orNull := by
  have one : [array].length = LibraryMethod.closureInvoke.arity := rfl
  rw [Instruction.callVirtual, execute_receiver (by decide) (apart _) one (by simpa using hstack),
    callLibrary, Option.getD_some]
  simp [LibraryMethod.perform, hclosure, listItems_eq_ok.2 hitems, bind, Except.bind]

/-- What is no function pointer cannot be called. -/
lemma closure_of_execute (apart : ∀ m : LibraryMethod, m.ref.owner ≠ c.name) {array target : Value}
    {rest : List Value} (hstack : f.stack = array :: target :: rest) {control : Control}
    {w' : World}
    (hexec : f.execute c (.callVirtual .closureInvoke) w = (.ok control, w')) :
    ∃ receiver name, w.heap.object? target = some (.closure receiver name) := by
  have one : [array].length = LibraryMethod.closureInvoke.arity := rfl
  rw [Instruction.callVirtual, execute_receiver (by decide) (apart _) one (by simpa using hstack),
    callLibrary, Option.getD_some] at hexec
  simp only [LibraryMethod.perform, List.getElem?_cons_zero, Option.getD_some] at hexec
  cases hclosure : w.heap.object? target with
  | none => simp [hclosure] at hexec
  | some obj =>
      cases obj with
      | closure receiver name => exact ⟨receiver, name, rfl⟩
      | _ => simp [hclosure] at hexec

end Frame

namespace Site

variable {s : Site} {p q : Point} {n : Nat} {hidden kept : Set Nat}

/-- **A whole call**: the method is entered with its locals, runs until it is left, and the caller
goes on with what it returned. -/
inductive Invokes (s : Site) (method : Method) (receiver : Value) (args : List Value) (p : Point)
    (w : World) (result : Option Value) (q : Point) : Prop
  | mk {callee : Site} {caller r : Point} {k l : Nat} : callee.code = method.code →
      callee.callers = s.frame caller :: s.callers →
      Machine.Moves s.classFile (s.machine p) 1
        (callee.machine ⟨0, [], method.entryLocals receiver args, w.enter 1⟩) →
      Machine.Runs s.classFile (callee.Inside 0 (callee.code.size + 1))
        (callee.machine ⟨0, [], method.entryLocals receiver args, w.enter 1⟩) k
        (callee.machine r) →
      callee.AtReturn r result → Machine.Moves s.classFile (callee.machine r) l (s.machine q) →
      Invokes s method receiver args p w result q

/-- A method is entered with locals that see nothing hidden. -/
lemma clear_entryLocals {method : Method} {receiver : Value} {args : List Value} {w : World}
    (hsealed : w.heap.Sealed hidden) (hargs : ∀ v ∈ receiver :: args, w.heap.Sees hidden v)
    (pc : Nat) :
    Point.Clear hidden ∅ ⟨pc, [], method.entryLocals receiver args, w⟩ := by
  have seen := method.sees_entryLocals hargs
  exact ⟨hsealed, by simp, fun slot => (seen slot).grounded, fun slot _ => seen slot⟩

/-- **A method of the class is called**, on values that see nothing hidden. -/
theorem passing_callOwn (hcalls : ∀ k < n, s.classFile.SparesHidden k) {i : Instruction}
    (hcode : s.code[p.pc]? = some i) (hsound : Machine.Sound s.classFile (s.machine p))
    {base : List Value} {w : World} {name : String} {receiver : Value} {args : List Value}
    {use : ResultUse} (hexec : (s.frame p).advanced.execute s.classFile i p.world
      = (s.frame ⟨p.pc + 1, base, p.locals, w⟩).callOwn s.classFile w name (some receiver) args use)
    (hsealed : w.heap.Sealed hidden) (hpassed : ∀ v ∈ receiver :: args, w.heap.Sees hidden v) :
    s.Passing p.pc (p.pc + 1) n p fun q => ∃ method result w',
      s.classFile.resolve name = .ok method ∧ s.Invokes method receiver args p w result q ∧
      q = ⟨p.pc + 1, use.pushed result ++ base, p.locals, w'⟩ ∧ w'.heap.Sealed hidden ∧
      Kept hidden w.heap w'.heap ∧ ∀ v ∈ result, w'.heap.Sees hidden v := by
  refine Machine.Passes.step ⟨hsound, inside_machine (Nat.le_refl _) (by omega)⟩
    fun k m hk hmove => ?_
  have hmove' := hmove
  cases hmove with
  | fall hnone _ => simp [machine, frame, hcode] at hnone
  | @execute _ j control w' hj hexec' hfollow =>
      obtain rfl : i = j := Option.some.inj (hcode.symm.trans hj)
      obtain ⟨method, callee, hresolve, hcall, rfl, rfl⟩ :=
        Frame.callOwn_ok (hexec.symm.trans hexec')
      obtain ⟨labels, hlabels, rfl⟩ := Frame.call_ok hcall
      obtain ⟨hmethod, -⟩ := Frame.resolve_ok hresolve
      -- the calling frame waits behind the call
      let waiting : Point := ⟨p.pc + 1, base, p.locals, w⟩
      let callee : Site :=
        { classFile := s.classFile, method := method.name, code := method.code, labels
          use, callers := s.frame waiting :: s.callers
          apart := s.apart, located := hlabels }
      let start : Point := ⟨0, [], method.entryLocals receiver args, w.enter 1⟩
      obtain rfl : callee.machine start = m := Except.ok.inj hfollow
      have returns := hcalls (n - 1) (by omega) callee hidden start rfl
        ⟨method, hmethod, rfl⟩ rfl rfl (clear_entryLocals (w := w.enter 1) hsealed hpassed 0)
      have within : ∀ {lo hi : Nat} {m : Machine}, callee.Inside lo hi m →
          s.Inside p.pc (p.pc + 1) m :=
        fun h => h.of_callee (r := waiting) rfl (Nat.lt_succ_self _) (Nat.le_refl _)
      refine Machine.Passes.bind returns (fun m hm => ⟨hm.1, within hm.2⟩) ?_
      rintro _ i - ⟨r, rfl, result, hreturn, hrclear, hrkept, hrsees⟩ hruns
      refine Machine.Passes.step ⟨sound_atReturn hrclear hreturn,
        within (inside_machine (Nat.le_refl _) (Nat.lt_succ_self _))⟩ fun l m' _ hleave => ?_
      obtain rfl : m' =
          s.machine ⟨p.pc + 1, use.pushed result ++ base, p.locals, r.world.leave 1⟩ := by
        rw [moves_atReturn hreturn rfl hleave]
        cases result <;> cases use <;> rfl
      exact .here ⟨_, rfl, method, result, r.world.leave 1, hresolve,
        .mk rfl rfl hmove' (hruns.widen fun _ hm => hm.2) hreturn hleave, rfl, hrclear.sealed,
        hrkept,
        hrsees⟩

/-- **A function pointer is called** with the items of an array. -/
theorem passing_invoke (hcalls : ∀ k < n, s.classFile.SparesHidden k) (hclear : p.Clear hidden kept)
    (hcode : s.code[p.pc]? = some (.callVirtual .closureInvoke)) {a : Nat} {target : Value}
    {base : List Value} {items : Array Value} (hstack : p.stack = .ref a :: target :: base)
    (htarget : p.world.heap.Sees hidden target) (ha : a ∉ hidden)
    (hitems : p.world.heap.get? a = some (.array items)) :
    s.Passing p.pc (p.pc + 1) n p fun q => ∃ receiver name method result w,
      p.world.heap.object? target = some (.closure receiver name) ∧
      s.classFile.resolve name = .ok method ∧
      s.Invokes method receiver items.toList p p.world result q ∧
      q = ⟨p.pc + 1, result.getD .null :: base, p.locals, w⟩ ∧ q.Clear hidden kept ∧
      Kept hidden p.world.heap w.heap ∧ w.heap.Sees hidden (result.getD .null) := by
  have sound : Machine.Sound s.classFile (s.machine p) := by
    refine sound_of_clear hclear hcode ?_ ?_
    · rintro _ _ ⟨⟩
      exact ⟨_, rfl⟩
    · simp [Frame.filled, Instruction.callVirtual, LibraryMethod.resolve?_ref]
  by_cases hclosure : ∃ receiver name, p.world.heap.object? target = some (.closure receiver name)
  · obtain ⟨receiver, name, hclosure⟩ := hclosure
    have passed : ∀ v ∈ receiver :: items.toList, p.world.heap.Sees hidden v := by
      intro v hv
      rcases List.mem_cons.1 hv with rfl | hv
      · cases target with
        | ref t =>
            exact hclear.sealed.guards t _ hclosure (htarget t rfl).2 v (by simp [Obj.values])
        | _ => simp [object?] at hclosure
      · exact hclear.sealed.guards a _ hitems ha v hv
    have called := Frame.execute_closureInvoke (f := (s.frame p).advanced) s.apart hstack hclosure
      (items?_of_array hitems)
    refine (passing_callOwn hcalls hcode sound called hclear.sealed passed).weaken ?_
    rintro q ⟨method, result, w, hresolve, hinvokes, rfl, hsealed, hkept, hsees⟩
    have seen : w.heap.Sees hidden (result.getD .null) := by
      cases result with
      | none => exact sees_null
      | some v => exact hsees v rfl
    have pushed : ResultUse.orNull.pushed result = [result.getD .null] := by cases result <;> rfl
    refine ⟨receiver, name, method, result, w, hclosure, hresolve, hinvokes, by rw [pushed]; rfl,
      hclear.move hsealed hkept.grows _ ?_, hkept, seen⟩
    intro v hv
    rw [pushed, List.singleton_append] at hv
    rcases List.mem_cons.1 hv with rfl | hv
    · exact .inr seen.grounded
    · exact .inl (by simp [hstack, hv])
  · exact .step hcode (Nat.le_refl _) (Nat.lt_succ_self _) sound fun control w _ hexec =>
      absurd (Frame.closure_of_execute (f := (s.frame p).advanced) s.apart hstack hexec) hclosure

/-! ## Before and after a call -/

section Around

open Lowering

/-- **A new function pointer**, whose receiver is that of the frame. -/
lemma passing_closure (same : Set Nat) {name : String} (hclear : p.Clear hidden kept)
    (hzero : 0 ∉ kept) (hhas : s.Has p.pc (closureCode name)) :
    s.Passing p.pc (p.pc + 5) n p fun q => p.Arrives hidden kept same (p.pc + 5) p.stack 1 q ∧
      q.stack = .ref p.world.heap.objects.size :: p.stack ∧
      q.world.heap.get? p.world.heap.objects.size
        = some (.closure (p.locals[0]?.getD .null) name) := by
  obtain ⟨pc, stack, locals, w⟩ := p
  simp only [closureCode, has_cons, has_nil, and_true] at hhas
  obtain ⟨hnew, hdup, hload, htext, hinit⟩ := hhas
  let receiver := locals[0]?.getD .null
  let a := w.heap.objects.size
  let w₁ : World := { w with heap := (w.heap.alloc (.uninit ClassName.closure)).2 }
  let w₂ : World := { w with heap := (w₁.heap.newText name).2 }
  have waiting : w₂.heap.get? a = some (.uninit ClassName.closure) :=
    (get?_alloc w.heap _ a).trans (if_pos rfl)
  have perform : LibraryMethod.closureInit.perform w₂.heap (.ref a)
      [receiver, .text w.heap.texts name]
      = .ok (.done none, w₂.heap.set a (.closure receiver name)) := by
    simp [LibraryMethod.perform, construct_of_uninit waiting, bind, Except.bind]
  refine passing_known (hclear.arrives same) hnew rfl (Nat.le_refl _) (by simp) (by simp)
    (Nat.le_refl _) (by simp) ⟨pc + 1, .ref a :: stack, locals, w₁⟩ rfl fun h₁ => ?_
  refine passing_known h₁ hdup rfl (Nat.le_refl _) (by simp) (by simp) (by simp) (by simp)
    ⟨pc + 2, .ref a :: .ref a :: stack, locals, w₁⟩ rfl fun h₂ => ?_
  refine passing_known h₂ hload rfl (Nat.zero_le _) (by simpa using hzero) (by simp) (by simp)
    (by simp) ⟨pc + 3, receiver :: .ref a :: .ref a :: stack, locals, w₁⟩ rfl fun h₃ => ?_
  refine passing_known h₃ htext rfl (Nat.zero_le _) (by simp) (by simp) (by simp) (by simp)
    ⟨pc + 4, .text w.heap.texts name :: receiver :: .ref a :: .ref a :: stack, locals, w₂⟩ rfl
    fun h₄ => ?_
  have enough : (Instruction.construct .closureInit).pops ≤ 4 := by decide
  exact passing_known h₄ hinit rfl enough (by simp [Instruction.construct])
    (by simp [Instruction.construct]) (by simp) (by simp)
    ⟨pc + 5, .ref a :: stack, locals, { w with heap := w₂.heap.set a (.closure receiver name) }⟩
    (execute_done (by decide) [receiver, .text w.heap.texts name] rfl perform rfl rfl)
    fun h₅ => .here ⟨h₅, rfl, by rw [get?_set waiting, if_pos rfl]⟩

/-- A cast leaves everything as it is, if it succeeds. -/
lemma passing_cast {owner : String} (hclear : p.Clear hidden kept)
    (hcode : s.code[p.pc]? = some (.cast owner)) :
    s.Passing p.pc (p.pc + 1) n p fun q => q = { p with pc := p.pc + 1 } := by
  refine .step hcode (Nat.le_refl _) (Nat.lt_succ_self _) (sound_of_clear hclear hcode
    (by simp [Instruction.IsLibrary]) (by simp [Frame.filled])) fun control w _ hexec => ?_
  obtain ⟨f, hf, rfl, rfl⟩ := Frame.stay_ok hexec
  refine ⟨{ p with pc := p.pc + 1 }, ?_, rfl, .here rfl⟩
  obtain ⟨⟨v, f'⟩, -, hcast⟩ := bind_ok hf
  obtain ⟨-, -, hframe⟩ := bind_ok hcast
  exact congrArg _ (Except.ok.inj hframe).symm

/-- **What the name of a callee stands for** at a point: a function, on the receiver of the frame,
or what the pointer in a variable leads to. -/
inductive Denotes (env : Env) (scope : ScopeId) (slots : Slots) (name : String) (p : Point) :
    Value → String → Prop
  | fn {binding : FunctionBinding} : env.symbols.lookup scope name = some (.fn binding) →
      Denotes env scope slots name p (p.locals[0]?.getD .null) name
  | var {slot : Nat} {receiver : Value} {f : String} :
      (∀ binding, env.symbols.lookup scope name ≠ some (.fn binding)) →
      slots.get? (.var name) = some slot →
      p.world.heap.object? (p.locals[slot]?.getD .null) = some (.closure receiver f) →
      Denotes env scope slots name p receiver f

/-- **The callee is pushed.** -/
lemma passing_callee (same : Set Nat) {env : Env} {scope : ScopeId} {slots : Slots} {t u : Supply}
    {name : String} {code : List Instruction} (h : CalleeCode env scope t name code u)
    (hwithin : u.slots.Within slots) (hclear : p.Clear hidden kept) (hhas : s.Has p.pc code)
    (hzero : 0 ∉ kept) (hvar : ∀ slot, slots.get? (.var name) = some slot → slot ∉ kept) :
    s.Passing p.pc (p.pc + code.length) n p fun q => ∃ target,
      p.Arrives hidden kept same (p.pc + code.length) p.stack 1 q ∧ q.stack = target :: p.stack ∧
      ∀ receiver f, Denotes env scope slots name p receiver f →
        q.world.heap.object? target = some (.closure receiver f) := by
  cases h with
  | fn hname =>
      refine (passing_closure same hclear hzero hhas).weaken ?_
      rintro q ⟨hq, hstack, hclosure⟩
      refine ⟨_, hq, hstack, fun receiver f hdenotes => ?_⟩
      cases hdenotes with
      | fn _ => exact hclosure
      | var hname' _ _ => exact absurd hname (hname' _)
  | var _ hname =>
      simp only [has_cons, has_nil, and_true] at hhas
      have hslot := Supply.get?_slotOf hwithin
      refine passing_known (hclear.arrives same) hhas.1 rfl (Nat.zero_le _)
        (by simpa using hvar _ hslot) (by simp) (Nat.le_refl _) (by simp)
        ⟨p.pc + 1, p.locals[t.slotOf (.var name)]?.getD .null :: p.stack, p.locals, p.world⟩ rfl
        fun h₁ => ?_
      refine (passing_cast h₁.later.clear hhas.2).seq (by simp) (Nat.le_refl _) ?_
      rintro _ _ - rfl
      refine .here ⟨_, ⟨⟨⟨h₁.later.clear.sealed, h₁.later.clear.stack, h₁.later.clear.held,
        h₁.later.clear.locals⟩, h₁.later.kept, h₁.later.same⟩, rfl, h₁.stack⟩, rfl,
        fun receiver f hdenotes => ?_⟩
      cases hdenotes with
      | fn hname' => exact absurd hname' (hname _)
      | @var slot _ _ _ hslot' hclosure =>
          obtain rfl : slot = t.slotOf (.var name) := Option.some.inj (hslot'.symm.trans hslot)
          exact hclosure

/-- **What is made of the result of a call**: it is dropped, or it stays. -/
lemma passing_result {ty : Ty} {v : Value} {stack : List Value} (hclear : p.Clear hidden kept)
    (hhas : s.Has p.pc (resultCode ty)) (hstack : p.stack = v :: stack) :
    s.Passing p.pc (p.pc + (resultCode ty).length) n p fun q =>
      q = ⟨p.pc + (resultCode ty).length, (if ty.isVoid then [] else [v]) ++ stack, p.locals,
        p.world⟩ := by
  obtain ⟨pc, _, locals, w⟩ := p
  subst hstack
  rw [resultCode] at hhas ⊢
  split at hhas
  · next hvoid =>
      have hpop : s.code[pc]? = some .pop := hhas 0 _ rfl
      rw [if_pos hvoid, if_pos hvoid]
      exact .exact hpop (Nat.le_refl _) (Nat.lt_succ_self _) (sound_of_clear hclear hpop
        (by simp [Instruction.IsLibrary]) (by simp [Frame.filled])) rfl (.here rfl)
  · next hvoid =>
      rw [if_neg hvoid, if_neg hvoid]
      rw [downcast] at hhas ⊢
      split at hhas
      · next owner howner =>
          exact passing_cast hclear (hhas 0 _ rfl)
      · exact .here rfl

end Around

end Site

end StackBackend
