import StackBackend.Proofs.Lowering.Slots
import StackBackend.Proofs.Machine.Safety
import StackBackend.Proofs.Typing.Memory
import StackBackend.Proofs.Typing.Rules

/-!
# Typed frames and calls

What is true of a frame while it runs a well-typed body.

* `Conf` — the memory, the locals, the lines printed and the calls open, with every variable holding
  a value of its type;
* `Conf.Evolves` — what the code of an expression does to a frame: memory grows, and the slots that
  are in use around the expression are left alone.  Those are the arrays of the list literals and of
  the calls the expression is a part of (`Reserved`);
* `Collects` — an array that is being filled, with values of given types so far;
* `Enters`, `CallSafe`, `CallsSafe` — it is safe to enter a method, to call one by its name, or to
  call every function, with fitting arguments.

`secures_invoke` is where a call happens.  It takes a step, so that calling a function for `n` steps
needs functions that are safe for fewer.
-/

namespace StackBackend.Typing

open Lowering Machine

/-! ## Frames -/

/-- **A frame of a well-typed body**, all but its place and its operands. -/
structure Conf (Γ : Context) (slots : Slots) where
  memory : Memory Γ.functions
  locals : Array Value
  printed : Array String
  opened : Nat
  fits : ∀ {name ty slot}, Γ.vars name = some ty → slots.get? (.var name) = some slot →
    memory.HasTy (locals[slot]?.getD .null) ty

/-- Slots that are in use around an expression: those of list literals with a lower number, and
those of calls with a lower nesting depth. -/
def Reserved (slots : Slots) (depth literals slot : Nat) : Prop :=
  (∃ number, number < literals ∧ slots.get? (.listLiteral number) = some slot) ∨
    ∃ callee nesting, nesting < depth ∧ slots.get? (.callArgs callee nesting) = some slot

lemma Reserved.mono {slots : Slots} {depth depth' literals literals' slot : Nat}
    (h : Reserved slots depth literals slot) (hdepth : depth ≤ depth')
    (hliterals : literals ≤ literals') : Reserved slots depth' literals' slot := by
  rcases h with ⟨number, hlt, hslot⟩ | ⟨callee, nesting, hlt, hslot⟩
  · exact .inl ⟨number, by omega, hslot⟩
  · exact .inr ⟨callee, nesting, by omega, hslot⟩

/-- Variables are not in reserved slots. -/
lemma not_reserved_var {slots : Slots} {depth literals slot : Nat} {name : String}
    (hslot : slots.get? (.var name) = some slot) : ¬ Reserved slots depth literals slot := by
  rintro (⟨number, -, hslot'⟩ | ⟨callee, nesting, -, hslot'⟩)
  · simpa using Slots.get?_inj hslot hslot'
  · simpa using Slots.get?_inj hslot hslot'

namespace Conf

variable {Γ : Context} {slots : Slots}

/-- The frame at a place, with operands. -/
abbrev point (c : Conf Γ slots) (pc : Nat) (stack : List Value) : Point :=
  ⟨pc, stack, c.locals, ⟨c.memory.heap, c.printed, c.opened⟩⟩

/-- The frame with another memory in which values have the types they had. -/
def withMemory (c : Conf Γ slots) (M : Memory Γ.functions)
    (h : ∀ {v ty}, c.memory.HasTy v ty → M.HasTy v ty) (printed : Array String) (opened : Nat) :
    Conf Γ slots where
  memory := M
  locals := c.locals
  printed
  opened
  fits hname hslot := h (c.fits hname hslot)

/-- The frame with a slot written: one of no variable, or with a value of the variable's type. -/
def write (c : Conf Γ slots) (slot : Nat) (v : Value)
    (h : ∀ {name ty}, Γ.vars name = some ty → slots.get? (.var name) = some slot →
      c.memory.HasTy v ty) : Conf Γ slots where
  memory := c.memory
  locals := writeLocal c.locals slot v
  printed := c.printed
  opened := c.opened
  fits {name ty other} hname hslot := by
    rw [getD_writeLocal]
    split
    · next same =>
        subst same
        exact h hname hslot
    · exact c.fits hname hslot

/-- A value of a variable's type may be written to its slot. -/
lemma fits_var {c : Conf Γ slots} {name : String} {slot : Nat} {v : Value} {ty : Ty}
    (hvars : Γ.vars name = some ty) (hslot : slots.get? (.var name) = some slot)
    (hv : c.memory.HasTy v ty) {other : String} {ty' : Ty} (hother : Γ.vars other = some ty')
    (hslot' : slots.get? (.var other) = some slot) : c.memory.HasTy v ty' := by
  obtain rfl : other = name := by simpa using Slots.get?_inj hslot' hslot
  obtain rfl : ty = ty' := by simpa [hvars] using hother
  exact hv

/-- **What the code of an expression does to a frame.** -/
structure Evolves (depth literals : Nat) (c c' : Conf Γ slots) : Prop where
  memory : c.memory.Within c'.memory
  reserved : ∀ {slot}, Reserved slots depth literals slot →
    c'.locals[slot]?.getD .null = c.locals[slot]?.getD .null

variable {depth literals : Nat} {c c' c'' : Conf Γ slots}

lemma Evolves.refl (c : Conf Γ slots) : Evolves depth literals c c :=
  ⟨.refl _, fun _ => rfl⟩

lemma Evolves.trans (h : Evolves depth literals c c') (h' : Evolves depth literals c' c'') :
    Evolves depth literals c c'' :=
  ⟨h.memory.trans h'.memory, fun hslot => (h'.reserved hslot).trans (h.reserved hslot)⟩

lemma Evolves.mono {depth' literals' : Nat} (h : Evolves depth' literals' c c')
    (hdepth : depth ≤ depth') (hliterals : literals ≤ literals') : Evolves depth literals c c' :=
  ⟨h.memory, fun hslot => h.reserved (hslot.mono hdepth hliterals)⟩

lemma evolves_withMemory {M : Memory Γ.functions} (h : c.memory.Within M) (printed : Array String)
    (opened : Nat) : Evolves depth literals c (c.withMemory M h.hasTy printed opened) :=
  ⟨h, fun _ => rfl⟩

lemma evolves_write {slot : Nat} {v : Value}
    (h : ∀ {name ty}, Γ.vars name = some ty → slots.get? (.var name) = some slot →
      c.memory.HasTy v ty) (hfree : ¬ Reserved slots depth literals slot) :
    Evolves depth literals c (c.write slot v h) := by
  refine ⟨.refl _, fun {other} hother => ?_⟩
  have apart : other ≠ slot := by
    rintro rfl
    exact hfree hother
  show (writeLocal c.locals slot v)[other]?.getD .null = _
  rw [getD_writeLocal, if_neg apart]

/-- **A value of a type is delivered** on top of the stack, at a place. -/
def Delivers (depth literals : Nat) (c : Conf Γ slots) (pc : Nat) (stack : List Value) (ty : Ty)
    (q : Point) : Prop :=
  ∃ (c' : Conf Γ slots) (v : Value), Evolves depth literals c c' ∧ c'.memory.HasTy v ty ∧
    q = c'.point pc (v :: stack)

lemma Delivers.after {pc : Nat} {stack : List Value} {ty : Ty} {q : Point}
    (h : c'.Delivers depth literals pc stack ty q) (hevolves : Evolves depth literals c c') :
    c.Delivers depth literals pc stack ty q := by
  obtain ⟨last, v, hlast, hv, hq⟩ := h
  exact ⟨last, v, hevolves.trans hlast, hv, hq⟩

/-- The value is there after some steps. -/
lemma delivers_of_steps {s : Site} {n k pc pc' : Nat} {p : Point} {stack : List Value} {v : Value}
    {ty ty' : Ty} (hsteps : s.Steps p k (c'.point pc' (v :: stack)))
    (hevolves : Evolves depth literals c c') (hty : ty = ty') (hv : c'.memory.HasTy v ty')
    (hpc : pc' = pc) : s.Secures n p (Delivers depth literals c pc stack ty) := by
  subst hty hpc
  exact .steps hsteps ⟨c', v, hevolves, hv, rfl⟩

end Conf

/-! ## Arrays that are being filled -/

/-- **An array in a slot collects values**, of the types `tys` so far.  It was made after `M₀`, and
it is behind no list. -/
structure Collects {Γ : Context} {slots : Slots} (M₀ : Memory Γ.functions) (c : Conf Γ slots)
    (slot array : Nat) (tys : List Ty) : Prop where
  within : M₀.Within c.memory
  fresh : M₀.heap.get? array = none
  held : c.locals[slot]?.getD .null = .ref array
  free : c.memory.backs array = none
  items : ∃ items, c.memory.heap.get? array = some (.array items) ∧
    List.Forall₂ c.memory.HasTy items.toList tys

lemma Collects.evolves {Γ : Context} {slots : Slots} {M₀ : Memory Γ.functions}
    {c c' : Conf Γ slots} {slot array depth literals : Nat} {tys : List Ty}
    (h : Collects M₀ c slot array tys) (hevolves : Conf.Evolves depth literals c c')
    (hslot : Reserved slots depth literals slot) : Collects M₀ c' slot array tys := by
  obtain ⟨items, hitems, hall⟩ := h.items
  obtain ⟨hitems', hfree⟩ := hevolves.memory.rest hitems h.free
  exact {
    within := h.within.trans hevolves.memory
    fresh := h.fresh
    held := (hevolves.reserved hslot).trans h.held
    free := hfree
    items := ⟨items, hitems', hall.imp fun _ _ hv => hevolves.memory.hasTy hv⟩ }

/-- **The array has collected values** of the types `tys`, at a place. -/
def Fills {Γ : Context} {slots : Slots} (M₀ : Memory Γ.functions) (slot array depth literals : Nat)
    (c : Conf Γ slots) (tys : List Ty) (pc : Nat) (stack : List Value) (q : Point) : Prop :=
  ∃ c' : Conf Γ slots, Collects M₀ c' slot array tys ∧
    (∀ {other}, Reserved slots depth literals other →
      c'.locals[other]?.getD .null = c.locals[other]?.getD .null) ∧
    q = c'.point pc stack

/-! ## Calls -/

/-- **It is safe to enter a method** for `n` steps, with arguments that fit, if it is safe to go on
in the caller with every result the method may have. -/
def Enters (cf : ClassFile) (functions : Signatures) (n : Nat) (method : Method) (tys : List Ty)
    (ret : Ty) : Prop :=
  ∀ (M : Memory functions) (args : List Value) (receiver : Option Value) (depth : Nat)
    (callee : Frame) (callers : List Frame) (use : ResultUse) (printed : Array String)
    (opened : Nat), M.ArgsFit args tys → Frame.call method receiver args depth use = .ok callee →
    (∀ (M' : Memory functions) (printed' : Array String) (opened' : Nat) (result : Option Value),
      M.Within M' → (ret ≠ .void → ∀ v ∈ result, M'.HasTy v ret) →
      Resumes cf n callers use result ⟨M'.heap, printed', opened'⟩) →
    Safe cf n { frame := callee, callers, world := ⟨M.heap, printed, opened⟩ }

/-- **A name stands for a method that can be called safely** for `n` steps. -/
def CallSafe (cf : ClassFile) (functions : Signatures) (n : Nat) (name : String) (tys : List Ty)
    (ret : Ty) : Prop :=
  ∃ method, cf.resolve name = .ok method ∧ (∃ labels, labelTable method.code = .ok labels) ∧
    Enters cf functions n method tys ret

/-- Results that nobody looks at may be of any type, and arguments may be missing. -/
lemma CallSafe.bare {cf : ClassFile} {functions : Signatures} {n : Nat} {name : String}
    {tys : List Ty} {ret : Ty} (h : CallSafe cf functions n name tys ret) :
    CallSafe cf functions n name [] .void := by
  obtain ⟨method, hresolve, hlabels, henters⟩ := h
  refine ⟨method, hresolve, hlabels, ?_⟩
  intro M args receiver depth callee callers use printed opened hargs hcall hreturns
  have fits : M.ArgsFit args tys := by
    intro place v hv
    obtain ⟨ty, hty, -⟩ := hargs hv
    simp at hty
  exact henters M args receiver depth callee callers use printed opened fits hcall
    fun M' printed' opened' result hM' _ => hreturns M' printed' opened' result hM' fun h =>
      absurd rfl h

/-- **Every function can be called safely** for `n` steps. -/
def CallsSafe (cf : ClassFile) (functions : Signatures) (n : Nat) : Prop :=
  ∀ name tys ret, functions name = some (tys, ret) → CallSafe cf functions n name tys ret

/-- Opening a frame fails only where there are too many. -/
lemma isBenign_of_call {method : Method} {receiver : Option Value} {args : List Value} {depth : Nat}
    {use : ResultUse} {labels : LabelTable} (hlabels : labelTable method.code = .ok labels)
    {fault : Fault} (h : Frame.call method receiver args depth use = .error fault) :
    fault.isBenign = true := by
  rw [Frame.call, hlabels] at h
  split at h
  · obtain rfl := by simpa using h
    rfl
  · simp at h

/-- **Calling a method** is a step, so it is safe for one step more than the method.  `q` is the
caller as it waits for the result. -/
lemma safe_of_callOwn {s : Site} {functions : Signatures} {n : Nat} {p q : Point} {i : Instruction}
    {name : String} {receiver : Option Value} {args : List Value} {use : ResultUse} {tys : List Ty}
    {ret : Ty} {M : Memory functions} (hi : s.code[p.pc]? = some i)
    (hexec : (s.frame p).advanced.execute s.classFile i p.world
      = (s.frame q).callOwn s.classFile q.world name receiver args use)
    (hheap : q.world.heap = M.heap) (hcall : CallSafe s.classFile functions n name tys ret)
    (hargs : M.ArgsFit args tys)
    (hnext : ∀ (M' : Memory functions) (printed : Array String) (opened : Nat)
      (result : Option Value), M.Within M' → (ret ≠ .void → ∀ v ∈ result, M'.HasTy v ret) →
      Safe s.classFile n
        { frame := (s.frame q).receive use result, callers := s.callers
          world := ⟨M'.heap, printed, opened⟩ }) :
    Safe s.classFile (n + 1) (s.machine p) := by
  obtain ⟨method, hresolve, ⟨labels, hlabels⟩, henters⟩ := hcall
  rw [Frame.callOwn, hresolve] at hexec
  cases hcall : Frame.call method receiver args q.world.depth use with
  | error fault =>
      simp only [hcall] at hexec
      refine Safe.of_stops (.fault hi hexec) fun fault' hfault => ?_
      obtain rfl := by simpa using hfault
      exact isBenign_of_call hlabels hcall
  | ok callee =>
      simp only [hcall] at hexec
      have moves : Moves s.classFile (s.machine p) 1
          { frame := callee, callers := s.frame q :: s.callers, world := q.world.enter 1 } :=
        .execute hi hexec rfl
      have entered := henters M args receiver _ callee (s.frame q :: s.callers) use q.world.printed
        (q.world.depth + 1) hargs hcall fun M' printed opened => hnext M' printed (opened - 1)
      rw [← hheap] at entered
      exact (Safe.of_leads moves.leads entered).mono (Nat.le_of_eq (Nat.add_comm n 1))

/-- **A call through a function pointer.**  It comes back with a value of the result type, if the
function has one. -/
lemma secures_invoke {Γ : Context} {slots : Slots} {s : Site} {n pc : Nat}
    (hcalls : ∀ k < n, CallsSafe s.classFile Γ.functions k)
    (hi : s.code[pc]? = some (.callVirtual .closureInvoke)) (c : Conf Γ slots) {pointer : Value}
    {array : Nat} {items : Array Value} {args : List Ty} {ret : Ty}
    (hpointer : c.memory.HasTy pointer (.fptr args ret))
    (harray : c.memory.heap.get? array = some (.array items))
    (hargs : c.memory.ArgsFit items.toList args) (stack : List Value) :
    s.Secures n (c.point pc (.ref array :: pointer :: stack)) fun q =>
      ∃ (M : Memory Γ.functions) (h : c.memory.Within M) (printed : Array String) (opened : Nat)
        (v : Value), (ret ≠ .void → M.HasTy v ret) ∧
        q = (c.withMemory M h.hasTy printed opened).point (pc + 1) (v :: stack) := by
  cases hpointer with
  | null => exact .fault (Site.fails_receiver (by decide) hi [.ref array] rfl rfl rfl) rfl
  | @closure address receiver name _ _ hobj hname =>
      intro hnext
      have performed : LibraryMethod.closureInvoke.perform c.memory.heap (.ref address) [.ref array]
          = .ok (.apply receiver name items.toList, c.memory.heap) := by
        have found : c.memory.heap.object? (.ref address) = some (.closure receiver name) := hobj
        simp [LibraryMethod.perform, found, Heap.listItems_eq_ok.2 (Heap.items?_of_array harray),
          bind, Except.bind]
      cases n with
      | zero => exact .zero hi
      | succ n =>
          have called :
              (s.frame (c.point pc (.ref array :: .ref address :: stack))).advanced.execute
                s.classFile (.callVirtual .closureInvoke) ⟨c.memory.heap, c.printed, c.opened⟩
              = (s.frame (c.point (pc + 1) stack)).callOwn s.classFile
                ⟨c.memory.heap, c.printed, c.opened⟩ name (some receiver) items.toList .orNull := by
            have hstack : (.ref array :: .ref address :: stack : List Value)
                = [.ref array].reverse ++ .ref address :: stack := rfl
            rw [Instruction.callVirtual, Frame.execute_receiver (by decide) (s.apart _) rfl hstack,
              Frame.callLibrary, Option.getD_some, performed]
            rfl
          have hcallee := hcalls n (Nat.lt_succ_self n) name args ret hname
          refine safe_of_callOwn hi called rfl hcallee hargs
            fun M printed opened result hwithin hresult => ?_
          cases result with
          | none =>
              exact (hnext _ ⟨M, hwithin, printed, opened, .null, fun _ => .null, rfl⟩).mono
                (Nat.le_succ n)
          | some v =>
              exact (hnext _ ⟨M, hwithin, printed, opened, v, fun h => hresult h v rfl, rfl⟩).mono
                (Nat.le_succ n)

end StackBackend.Typing
