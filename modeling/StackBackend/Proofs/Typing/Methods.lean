import StackBackend.Proofs.Lowering.MethodDepths
import StackBackend.Proofs.Machine.Inversion
import StackBackend.Proofs.Typing.Statements

/-!
# Entering the methods of a class

A class has three kinds of methods, and each can be entered safely if the functions, or the
constructor, can be called safely for fewer steps.

* `enters_body` — the method of a body, whose parameters are in the first slots: a function, or the
  constructor, which has two instructions in front of the entry unit;
* `enters_entryPoint` — the static entry point, which makes an instance and calls the constructor.

Fewer arguments than there are parameters are enough: what was not passed is `null`.
-/

namespace StackBackend.Typing

open Lowering Conf Machine

/-! ## Frames of calls -/

/-- **The frame of a call** is a site at its first place. -/
lemma exists_site {cf : ClassFile} (hapart : ∀ m : LibraryMethod, m.ref.owner ≠ cf.name)
    {method : Method} {receiver : Option Value} {args : List Value} {depth : Nat} {use : ResultUse}
    {callee : Frame} (h : Frame.call method receiver args depth use = .ok callee)
    (callers : List Frame) :
    ∃ s : Site, s.classFile = cf ∧ s.code = method.code ∧ s.callers = callers ∧ s.use = use ∧
      ∀ w, ({ frame := callee, callers, world := w } : Machine)
        = s.machine ⟨0, [], method.entryLocals (receiver.getD .null) args, w⟩ := by
  obtain ⟨labels, hlabels, rfl⟩ := Frame.call_ok h
  exact ⟨{ classFile := cf, method := method.name, code := method.code, labels, use, callers
           apart := hapart, located := hlabels }, rfl, rfl, rfl, rfl, fun w => rfl⟩

/-! ## Parameters -/

lemma keys_paramSlots {params : List Param} {slots slots' : Slots}
    (h : paramSlots slots params = .ok slots') (hnodup : (params.map Param.name).Nodup)
    (hfree : ∀ param ∈ params, SlotKey.var param.name ∉ slots.keys) :
    slots'.keys.reverse = slots.keys.reverse ++ params.map fun param => .var param.name := by
  induction params generalizing slots with
  | nil =>
      obtain rfl : slots = slots' := by simpa [paramSlots] using h
      simp
  | cons param rest ih =>
      rw [List.map_cons, List.nodup_cons] at hnodup
      rw [paramSlots] at h
      split at h
      · next place entered hentered =>
          have added : entered.keys.reverse = slots.keys.reverse ++ [.var param.name] := by
            have keys := slots.keys_enter (.var param.name)
            rwa [(Slots.slot_eq_some.1 hentered).2, if_neg (hfree param List.mem_cons_self)] at keys
          have free : ∀ other ∈ rest, SlotKey.var other.name ∉ entered.keys := by
            intro other hother
            have apart : other.name ≠ param.name := fun h =>
              hnodup.1 (h ▸ List.mem_map_of_mem hother)
            rw [← List.mem_reverse, added]
            simp [hfree other (List.mem_cons_of_mem _ hother), apart]
          rw [ih h hnodup.2 free, added]
          simp
      · cases h

/-- **Parameters have the first slots**, in order. -/
lemma get?_paramSlots {params : List Param} {slots : Slots}
    (h : paramSlots .empty params = .ok slots) (hnodup : (params.map Param.name).Nodup)
    {place : Nat} {param : Param} (hparam : params[place]? = some param) :
    slots.get? (.var param.name) = some (place + 1) := by
  have keys : slots.keys.reverse = params.map fun param => SlotKey.var param.name :=
    keys_paramSlots h hnodup fun _ _ => List.not_mem_nil
  have distinct : slots.keys.reverse.Nodup := by
    have named := hnodup.map (f := SlotKey.var) fun _ _ hname => SlotKey.var.inj hname
    rw [keys]
    simpa [Function.comp_def] using named
  rw [Slots.get?_eq_iff_getElem? distinct, keys, List.getElem?_map, hparam]
  rfl

/-- **Arguments that fit their parameters** make the frame of a body: a variable is a parameter that
was given a value of its type, or it holds `null`. -/
lemma fits_args {Γ : Context} {slots : Slots} {M : Memory Γ.functions} {args : List Value}
    {params : List Param} (hargs : M.ArgsFit args (params.map Param.ty))
    (hnodup : (params.map Param.name).Nodup)
    (hvars : ∀ param ∈ params, Γ.vars param.name = some param.ty) {first : Slots}
    (hfirst : paramSlots .empty params = .ok first) (hslots : first.Within slots)
    (receiver : Value) {name : String} {ty : Ty} {slot : Nat} (hname : Γ.vars name = some ty)
    (hslot : slots.get? (.var name) = some slot) :
    M.HasTy ((receiver :: args).toArray[slot]?.getD .null) ty := by
  obtain ⟨place, rfl, -⟩ := Slots.get?_eq_some hslot
  have read : (receiver :: args).toArray[place + 1]? = args[place]? := by simp
  rw [read]
  cases hv : args[place]? with
  | none => exact .null
  | some v =>
      obtain ⟨ty', hty', hfits⟩ := hargs hv
      rw [List.getElem?_map] at hty'
      obtain ⟨param, hparam, rfl⟩ := Option.map_eq_some_iff.1 hty'
      have hplace := Slots.get?_of_within hslots (get?_paramSlots hfirst hnodup hparam)
      obtain rfl : name = param.name := by simpa using Slots.get?_inj hslot hplace
      obtain rfl : ty = param.ty := by
        simpa [hname] using hvars param (List.mem_of_getElem? hparam)
      exact hfits

/-! ## Bodies -/

/-- A closed body is its code, and a return at most. -/
lemma toList_closeBody (ret : Ty) (code : List Instruction) :
    ∃ last, (last = [] ∨ last = [.ret]) ∧ (closeBody ret code.toArray).toList = code ++ last := by
  rw [closeBody]
  split
  · exact ⟨[.ret], .inr rfl, by simp⟩
  · exact ⟨[], .inl rfl, by simp⟩

/-- The end of a method's code stands behind its beginning. -/
lemma has_of_toList {s : Site} {before code : List Instruction}
    (h : s.code.toList = before ++ code) : s.Has before.length code := by
  intro j i hj
  rw [← Array.getElem?_toList, h, List.getElem?_append_right (Nat.le_add_right _ _),
    Nat.add_sub_cancel_left, hj]

/-- **A well-typed body is ready**, at the end of the code it stands in. -/
lemma ready_body {s : Site} {n : Nat} {Γ : Context} {shared : Shared} {slots : Slots}
    {body : List Stmt} {scope : ScopeId} {code : Code} {issued : Nat} {before : List Instruction}
    (h : BodyCode Γ.symbols shared slots body scope Γ.ret code issued)
    (hΓ : Agrees ⟨Γ.symbols, shared.returns⟩ Γ) (ht : Γ.blockTyped false scope body = true)
    (hcode : s.code.toList = before ++ code.toList) {M : Memory Γ.functions}
    (hcalls : ∀ k < n, CallsSafe s.classFile Γ.functions k)
    (hreturns : ∀ (M' : Memory Γ.functions) (printed : Array String) (opened : Nat)
      (result : Option Value), M.Within M' → (Γ.ret ≠ .void → ∀ v ∈ result, M'.HasTy v Γ.ret) →
      s.Leaves n result ⟨M'.heap, printed, opened⟩) :
    ∃ all : Slots, slots.Within all ∧ Ready s Γ all n M before.length := by
  cases h with
  | @mk code u hblock =>
      obtain ⟨last, hlast, hclosed⟩ := toList_closeBody Γ.ret code
      rw [hclosed] at hcode
      have stands := Site.has_append.1 (has_of_toList hcode)
      have ends : Ready s Γ u.slots n M (before.length + code.length) := by
        intro c hM
        have leaves := hreturns c.memory c.printed c.opened none hM (by simp)
        rcases hlast with rfl | rfl
        · refine Site.safe_of_end (p := c.point (before.length + code.length) []) ?_ leaves
          rw [List.append_nil] at hcode
          show s.code[before.length + code.length]? = none
          rw [← Array.getElem?_toList, hcode, List.getElem?_eq_none (by simp)]
        · exact Site.safe_of_ret (p := c.point (before.length + code.length) [])
            (Site.has_cons.1 stands.2).1 leaves
      refine ⟨u.slots, hblock.within.slots, ready_block hblock hΓ ht (.refl _) stands.1 ?_ ends⟩
      exact { calls := hcalls, returns := hreturns, breaks := by simp, restarts := by simp }

/-- **The method of a well-typed body can be entered.**  In front of the body may stand code that
does nothing to the frame. -/
lemma enters_body {cf : ClassFile} (hapart : ∀ m : LibraryMethod, m.ref.owner ≠ cf.name) {n : Nat}
    {Γ : Context} {shared : Shared} {params : List Param} {body : List Stmt} {scope : ScopeId}
    {code : Code} {issued : Nat} {before : List Instruction} {method : Method} {first : Slots}
    (hfirst : paramSlots .empty params = .ok first)
    (h : BodyCode Γ.symbols shared first body scope Γ.ret code issued)
    (hΓ : Agrees ⟨Γ.symbols, shared.returns⟩ Γ) (ht : Γ.blockTyped false scope body = true)
    (hnodup : (params.map Param.name).Nodup)
    (hvars : ∀ param ∈ params, Γ.vars param.name = some param.ty)
    (hstatic : method.isStatic = false) (hcode : method.code.toList = before ++ code.toList)
    (hbefore : ∀ {s : Site} {locals : Array Value} {w : World}, s.Has 0 before →
      ∃ k, s.Steps ⟨0, [], locals, w⟩ k ⟨before.length, [], locals, w⟩)
    (hcalls : ∀ k < n, CallsSafe cf Γ.functions k) :
    Enters cf Γ.functions n method (params.map Param.ty) Γ.ret := by
  intro M args receiver depth callee callers use printed opened hargs hcall hreturns
  obtain ⟨s, rfl, hsite, rfl, rfl, hmachine⟩ := exists_site hapart hcall callers
  obtain ⟨all, hslots, hready⟩ := ready_body h hΓ ht (hsite ▸ hcode) hcalls hreturns
  let c : Conf Γ all :=
    { memory := M, locals := (receiver.getD .null :: args).toArray, printed, opened
      fits := fits_args hargs hnodup hvars hfirst hslots (receiver.getD .null) }
  have stands : s.Has ([] : List Instruction).length (before ++ code.toList) :=
    has_of_toList (by rw [hsite, hcode, List.nil_append])
  obtain ⟨k, hk⟩ := hbefore (Site.has_append.1 stands).1
  rw [hmachine, Method.entryLocals, hstatic]
  exact (Safe.of_leads hk (hready c (.refl M))).mono (Nat.le_add_left n k)

/-! ## The entry point -/

/-- The entry point's call of the constructor: the new instance is marked as initialized, and what
is called is whatever the constructor's name stands for. -/
lemma execute_constructor {s : Site} {config : Config} (hname : s.classFile.name = config.className)
    {method : Method} (hresolve : s.classFile.resolve constructorName = .ok method) (heap : Heap)
    (locals : Array Value) (printed : Array String) (opened : Nat) {p q : Point}
    (hp : p = ⟨1, [.ref heap.objects.size], locals,
      ⟨(heap.alloc (.uninit config.className)).2, printed, opened⟩⟩)
    (hq : q = ⟨2, [], locals, ⟨(heap.alloc (.inst config.className)).2, printed, opened⟩⟩) :
    (s.frame p).advanced.execute s.classFile
        (.invoke .special ⟨config.className, constructorName, "()V"⟩) p.world
      = (s.frame q).callOwn s.classFile q.world constructorName (some (.ref heap.objects.size)) []
        .ifAny := by
  have harity : MethodRef.arity ⟨config.className, constructorName, "()V"⟩ = 0 := by
    show Descriptor.arity "()V" = 0
    decide
  subst hp hq
  rw [Frame.execute, Frame.invoke, harity]
  simp [Frame.popArgs, Frame.takeArgs, Frame.pop, Frame.advanced, Site.frame, Frame.callMethod,
    Frame.callMember, hname, hresolve, Heap.construct_alloc]

/-- **The entry point can be entered**, with any arguments, if the constructor can be called. -/
lemma enters_entryPoint {cf : ClassFile} (hapart : ∀ m : LibraryMethod, m.ref.owner ≠ cf.name)
    {config : Config} (hname : cf.name = config.className) {functions : Signatures} {n : Nat}
    (hinit : ∀ k < n, CallSafe cf functions k constructorName [] .void) (tys : List Ty) (ret : Ty) :
    Enters cf functions n (entryPoint config) tys ret := by
  intro M args receiver depth callee callers use printed opened _ hcall hreturns
  obtain ⟨s, rfl, hsite, rfl, rfl, hmachine⟩ := exists_site hapart hcall callers
  have hnew : s.code[0]? = some (.new config.className) := by rw [hsite]; rfl
  have hinvoke : s.code[1]? =
      some (.invoke .special ⟨config.className, constructorName, "()V"⟩) := by
    rw [hsite]
    rfl
  have hret : s.code[2]? = some .ret := by rw [hsite]; rfl
  rw [hmachine]
  cases n with
  | zero => exact .zero hnew
  | succ n =>
      have hcallee := hinit n (Nat.lt_succ_self n)
      obtain ⟨method, hresolve, -⟩ := id hcallee
      have called := execute_constructor hname hresolve M.heap args.toArray printed opened rfl rfl
      refine (Safe.of_leads (Site.step_new hnew) ?_).mono (Nat.le_add_left (n + 1) 1)
      refine safe_of_callOwn (M := M.push (.inst config.className)) hinvoke called rfl hcallee
        (fun h => by simp at h) fun M' printed' opened' result hM' _ => ?_
      -- whatever the constructor returns is not looked at
      have leaves :=
        (hreturns M' printed' opened' none ((M.within_push _).trans hM') (by simp)).mono
        (Nat.le_succ n)
      cases result with
      | none => exact Site.safe_of_ret (p := ⟨2, [], args.toArray, _⟩) hret leaves
      | some v => exact Site.safe_of_ret (p := ⟨2, [v], args.toArray, _⟩) hret leaves

end StackBackend.Typing
