import StackBackend.Proofs.Lowering.Slots
import StackBackend.Proofs.Meaning.Data
import StackBackend.Proofs.Meaning.Scalars
import StackBackend.Proofs.Storage.Heaps

/-!
# Data on the heap

How the data of direct evaluation look on the machine, and what is shown of the code of an
expression.

* `Denotes h hidden value d` — a machine value stands for a datum: a list for the items in the array
  behind it, items for data in turn.  Arrays that are still being filled are `hidden`: no list that
  stands for a datum is around one of them;
* `Holds` — the variables' slots hold the data of a store;
* `Keeps` — what the code of an expression leaves alone: all objects, the lines printed, and all
  slots but those of number variables and of the list literals in the expression;
* `Yields` — what is shown of a piece of code.

A list literal fills an array that nobody else sees, and a list that goes into it is copied into an
object made before.  So objects do change while an expression is evaluated, but none that was there
at the start; what values stand for does not change with them (`Denotes.set`).
-/

namespace StackBackend

/-! ## Objects that stay -/

namespace Heap

/-- All objects of one heap are in another, as they are. -/
def Within (h h' : Heap) : Prop := ∀ a obj, h.get? a = some obj → h'.get? a = some obj

variable {h h' h'' : Heap} {a : Nat} {old : Obj}

lemma Within.refl (h : Heap) : h.Within h := fun _ _ hobj => hobj

lemma Within.trans (hh : h.Within h') (hh' : h'.Within h'') : h.Within h'' :=
  fun a obj hobj => hh' a obj (hh a obj hobj)

lemma within_alloc (h : Heap) (obj : Obj) : h.Within (h.alloc obj).2 :=
  fun _ _ hold => get?_alloc_of_get? hold obj

lemma Within.size_le (hh : h.Within h') : h.objects.size ≤ h'.objects.size := by
  by_contra hlt
  have last : h.get? h'.objects.size = some _ := Array.getElem?_eq_getElem (by omega)
  simpa using lt_size_of_get? (hh _ _ last)

/-- Making a text changes no object. -/
lemma within_texts (h : Heap) (texts : Nat) : h.Within { h with texts } := fun _ _ hobj => hobj

/-- An object that is new may be replaced. -/
lemma Within.set (hh : h.Within h') (hnew : h.get? a = none) (hold : h'.get? a = some old)
    (obj : Obj) : h.Within (h'.set a obj) := by
  intro b obj' hobj'
  have apart : b ≠ a := by
    rintro rfl
    simp [hnew] at hobj'
  rw [get?_set hold, if_neg apart]
  exact hh b obj' hobj'

lemma Within.wrapCopy (hh : h.Within h') (hnew : h.get? a = none) {owner : String}
    (hold : h'.get? a = some (.uninit owner)) (items : Array Value) :
    h.Within (h'.wrapCopy a items) :=
  (hh.trans (h'.within_alloc _)).set hnew (get?_alloc_of_get? hold _) _

end Heap

/-- A list is put around a copy of the items of another. -/
lemma Site.step_listCopy {s : Site} {pc copy address array : Nat} {stack : List Value}
    {locals : Array Value} {w : World} {owner : String} {items : Array Value}
    (hi : s.code[pc]? = some (.construct .listCopy))
    (hcopy : w.heap.get? copy = some (.uninit owner))
    (hlist : w.heap.get? address = some (.list (.ref array)))
    (hitems : w.heap.get? array = some (.array items)) :
    s.Steps ⟨pc, .ref address :: .ref copy :: stack, locals, w⟩ 1
      ⟨pc + 1, stack, locals, { w with heap := w.heap.wrapCopy copy items }⟩ := by
  have performed := Heap.perform_listCopy hcopy (Heap.items?_of_list hlist hitems)
  exact Site.step_construct hi [.ref address] rfl performed rfl

/-- A value is added to an array. -/
lemma Site.step_arrayAdd {s : Site} {pc array : Nat} {stack : List Value} {locals : Array Value}
    {w : World} {items : Array Value} {value : Value}
    (hi : s.code[pc]? = some (.callVirtual .arrayAdd)) (hpop : s.code[pc + 1]? = some .pop)
    (hitems : w.heap.get? array = some (.array items)) :
    s.Steps ⟨pc, value :: .ref array :: stack, locals, w⟩ 2
      ⟨pc + 2, stack, locals,
        { w with heap := w.heap.set array (.array (items.push value)) }⟩ := by
  have performed : LibraryMethod.arrayAdd.perform w.heap (.ref array) [value]
      = .ok (.done (some (.raw 1)), w.heap.set array (.array (items.push value))) := by
    simp [LibraryMethod.perform, Heap.dereference, hitems]
  exact (Site.step_call hi [value] rfl performed rfl rfl).trans (Site.step_pop hpop)

namespace Data

open Lowering Typing
open Direct (Scalar Represents)

/-! ## Values -/

/-- **A machine value stands for a datum**, by arrays that are not hidden. -/
inductive Denotes (h : Heap) (hidden : Set Nat) : Value → Datum → Prop
  | scalar {value : Value} {v : Scalar} : Represents value v → Denotes h hidden value (.scalar v)
  | list {address array : Nat} {items : Array Value} {data : List Datum} :
      h.get? address = some (.list (.ref array)) → h.get? array = some (.array items) →
      array ∉ hidden → items.size = data.length →
      (∀ (i : Nat) v d, items[i]? = some v → data[i]? = some d → Denotes h hidden v d) →
      Denotes h hidden (.ref address) (.list data)
  | pointer {address : Nat} {receiver : Value} {name : String} :
      h.get? address = some (.closure receiver name) →
      Denotes h hidden (.ref address) (.pointer address)

section Denotes

variable {h h' : Heap} {hidden hidden' : Set Nat} {value : Value} {d : Datum} {a : Nat}

/-- What a value stands for depends on objects that never change, and on arrays that are not
hidden. -/
lemma Denotes.transfer (hd : Denotes h hidden value d)
    (hfixed : ∀ a obj, h.get? a = some obj → obj.isFixed = true → h'.get? a = some obj)
    (harrays : ∀ b items, h.get? b = some (.array items) → b ∉ hidden →
      h'.get? b = some (.array items) ∧ b ∉ hidden') : Denotes h' hidden' value d := by
  induction hd with
  | scalar hvalue => exact .scalar hvalue
  | list hlist hitems hshown hsize _ ih =>
      obtain ⟨hitems', hshown'⟩ := harrays _ _ hitems hshown
      exact .list (hfixed _ _ hlist rfl) hitems' hshown' hsize ih
  | pointer hobj => exact .pointer (hfixed _ _ hobj rfl)

lemma Denotes.within (hd : Denotes h hidden value d) (hh : h.Within h') :
    Denotes h' hidden value d :=
  hd.transfer (fun a obj hobj _ => hh a obj hobj) fun b _ hitems hshown => ⟨hh b _ hitems, hshown⟩

/-- An array that was not there may be hidden. -/
lemma Denotes.hide (hd : Denotes h hidden value d) (hh : h.Within h') (hnew : h.get? a = none) :
    Denotes h' (insert a hidden) value d := by
  refine hd.transfer (fun a obj hobj _ => hh a obj hobj) fun b items hitems hshown => ?_
  refine ⟨hh b _ hitems, ?_⟩
  rintro (rfl | hhidden)
  · simp [hnew] at hitems
  · exact hshown hhidden

lemma Denotes.reveal (hd : Denotes h hidden value d) (hsub : hidden' ⊆ hidden) :
    Denotes h hidden' value d :=
  hd.transfer (fun _ _ hobj _ => hobj) fun _ _ hitems hshown =>
    ⟨hitems, fun hhidden => hshown (hsub hhidden)⟩

/-- **Objects under construction can change**: what is not initialized, and hidden arrays. -/
lemma Denotes.set (hd : Denotes h hidden value d) {old : Obj} (hold : h.get? a = some old)
    (hopen : old.isFixed = false) (hhidden : ∀ items, old = .array items → a ∈ hidden) (obj : Obj) :
    Denotes (h.set a obj) hidden value d := by
  refine hd.transfer (fun b obj' hobj' hfixed => ?_) fun b items hitems hshown => ⟨?_, hshown⟩
  · have apart : b ≠ a := by
      rintro rfl
      obtain rfl : old = obj' := by simpa [hold] using hobj'
      simp [hopen] at hfixed
    rw [Heap.get?_set hold, if_neg apart, hobj']
  · have apart : b ≠ a := by
      rintro rfl
      obtain rfl : old = .array items := by simpa [hold] using hitems
      exact hshown (hhidden items rfl)
    rw [Heap.get?_set hold, if_neg apart, hitems]

/-- A list that is put around a copy is noticed by no value there was. -/
lemma Denotes.wrapCopy (hd : Denotes h hidden value d) {owner : String}
    (hold : h.get? a = some (.uninit owner)) (items : Array Value) :
    Denotes (h.wrapCopy a items) hidden value d :=
  (hd.within (h.within_alloc _)).set (Heap.get?_alloc_of_get? hold _) rfl (by simp) _

/-! ### By type -/

lemma denotes_scalar {v : Scalar} : Denotes h hidden value (.scalar v) ↔ Represents value v :=
  ⟨fun hd => by cases hd; assumption, .scalar⟩

lemma Denotes.of_scalar {ty : Ty} (hd : Denotes h hidden value d) (hty : d.HasTy ty)
    (hscalar : Direct.scalarTy ty = true) :
    ∃ v : Scalar, d = .scalar v ∧ v.ty = ty ∧ Represents value v := by
  cases hty with
  | scalar v =>
      cases hd with
      | scalar hvalue => exact ⟨v, rfl, rfl, hvalue⟩
  | list _ | pointer _ _ _ => simp [Direct.scalarTy] at hscalar

lemma Denotes.of_int (hd : Denotes h hidden value d) (hty : d.HasTy .int) :
    ∃ a, value = .integer a ∧ d = .scalar (.int a) := by
  obtain ⟨v, rfl, hv, hvalue⟩ := hd.of_scalar hty rfl
  obtain ⟨a, rfl, rfl⟩ := hvalue.of_int hv
  exact ⟨a, rfl, rfl⟩

lemma Denotes.of_bool (hd : Denotes h hidden value d) (hty : d.HasTy .bool) :
    ∃ b, value = .boolean b ∧ d = .scalar (.bool b) := by
  obtain ⟨v, rfl, hv, hvalue⟩ := hd.of_scalar hty rfl
  obtain ⟨b, rfl, rfl⟩ := hvalue.of_bool hv
  exact ⟨b, rfl, rfl⟩

lemma Denotes.of_text (hd : Denotes h hidden value d) (hty : d.HasTy .string) :
    ∃ ident t, value = .text ident t ∧ d = .scalar (.text t) := by
  obtain ⟨v, rfl, hv, hvalue⟩ := hd.of_scalar hty rfl
  obtain ⟨ident, t, rfl, rfl⟩ := hvalue.of_text hv
  exact ⟨ident, t, rfl, rfl⟩

/-- A list is an object around an array whose items stand for its items. -/
lemma Denotes.of_list {element : Ty} (hd : Denotes h hidden value d)
    (hty : d.HasTy (.list element)) :
    ∃ address array items data, value = .ref address ∧ d = .list data ∧
      h.get? address = some (.list (.ref array)) ∧ h.get? array = some (.array items) ∧
      items.size = data.length ∧ (∀ d ∈ data, d.HasTy element) ∧
      ∀ (i : Nat) v d, items[i]? = some v → data[i]? = some d → Denotes h hidden v d := by
  cases hd with
  | list hlist hitems _ hsize hall =>
      cases hty with
      | list helements => exact ⟨_, _, _, _, rfl, rfl, hlist, hitems, hsize, helements, hall⟩
  | scalar hvalue => cases hvalue <;> cases hty
  | pointer _ => cases hty

/-- A value passes the check for its type. -/
lemma Denotes.checkCast {ty : Ty} (hd : Denotes h hidden value d) (hty : d.HasTy ty)
    {owner : String} (howner : ty.boxedClass? = some owner) : h.checkCast owner value = .ok () := by
  cases hd with
  | scalar hvalue =>
      cases hty with
      | scalar v =>
          cases hvalue with
          | int _ | bool _ | text _ _ =>
              obtain rfl := Option.some.inj howner
              simp [Heap.checkCast, Heap.typeName]
  | list hobj _ _ _ _ | pointer hobj =>
      cases hty
      obtain rfl := Option.some.inj howner
      simp [Heap.checkCast, Heap.typeName, hobj, Heap.objectTypeName]

end Denotes

/-! ## Stores -/

section Stores

variable (Γ : Context) (slots : Slots)

/-- **The slots of the variables hold the data of a store**, each of its variable's type.  The
hidden arrays are there, and none of them is behind a list of the store. -/
structure Holds (hidden : Set Nat) (p : Point) (store : Store) : Prop where
  vars : ∀ name ty, Γ.vars name = some ty → (store name).HasTy ty ∧
    ∀ slot, slots.get? (.var name) = some slot →
      Denotes p.world.heap hidden (p.locals[slot]?.getD .null) (store name)
  bounded : ∀ a ∈ hidden, a < p.world.heap.objects.size

/-- A slot that the code of an expression may write: that of a number variable, or of a list literal
with this number or a higher one. -/
def Scratch (literals slot : Nat) : Prop :=
  (∃ name, Γ.vars name = some .int ∧ slots.get? (.var name) = some slot) ∨
    ∃ number, literals ≤ number ∧ slots.get? (.listLiteral number) = some slot

/-- **What the code of an expression leaves alone**, on its way from one point to another. -/
structure Keeps (literals : Nat) (p q : Point) : Prop where
  heap : p.world.heap.Within q.world.heap
  printed : q.world.printed = p.world.printed
  locals : ∀ slot, ¬ Scratch Γ slots literals slot →
    q.locals[slot]?.getD .null = p.locals[slot]?.getD .null

variable {Γ slots} {hidden : Set Nat} {literals literals' : Nat} {p q r : Point} {store : Store}

/-- A point with the same locals and the same objects. -/
lemma keeps_of_same (hlocals : q.locals = p.locals) (hheap : p.world.heap.Within q.world.heap)
    (hprinted : q.world.printed = p.world.printed) : Keeps Γ slots literals p q :=
  ⟨hheap, hprinted, fun slot _ => by rw [hlocals]⟩

/-- A slot that the code may write is written. -/
lemma keeps_write {slot : Nat} {value : Value} (hslot : Scratch Γ slots literals slot)
    (hlocals : q.locals = writeLocal p.locals slot value)
    (hheap : p.world.heap.Within q.world.heap) (hprinted : q.world.printed = p.world.printed) :
    Keeps Γ slots literals p q := by
  refine ⟨hheap, hprinted, fun other hother => ?_⟩
  have apart : other ≠ slot := by
    rintro rfl
    exact hother hslot
  rw [hlocals, getD_writeLocal, if_neg apart]

lemma Keeps.trans (h : Keeps Γ slots literals p q) (h' : Keeps Γ slots literals q r) :
    Keeps Γ slots literals p r :=
  ⟨h.heap.trans h'.heap, h'.printed.trans h.printed,
    fun slot hslot => (h'.locals slot hslot).trans (h.locals slot hslot)⟩

lemma Scratch.mono {slot : Nat} (h : Scratch Γ slots literals' slot) (hle : literals ≤ literals') :
    Scratch Γ slots literals slot := by
  rcases h with hvar | ⟨number, hnumber, hget⟩
  · exact .inl hvar
  · exact .inr ⟨number, Nat.le_trans hle hnumber, hget⟩

lemma Keeps.mono (h : Keeps Γ slots literals' p q) (hle : literals ≤ literals') :
    Keeps Γ slots literals p q :=
  ⟨h.heap, h.printed, fun slot hslot => h.locals slot fun hscratch => hslot (hscratch.mono hle)⟩

/-- The slot of a list literal with a lower number is left alone. -/
lemma not_scratch_literal {number slot : Nat} (hslot : slots.get? (.listLiteral number) = some slot)
    (hlt : number < literals) : ¬ Scratch Γ slots literals slot := by
  rintro (⟨name, -, hget⟩ | ⟨other, hle, hget⟩)
  · simpa using Slots.get?_inj hslot hget
  · obtain rfl : number = other := by simpa using Slots.get?_inj hslot hget
    omega

/-- A change of the heap that values do not notice changes nothing about a store. -/
lemma Holds.change (h : Holds Γ slots hidden p store) (hlocals : q.locals = p.locals)
    (hsize : p.world.heap.objects.size ≤ q.world.heap.objects.size)
    (hdenotes : ∀ {v d}, Denotes p.world.heap hidden v d → Denotes q.world.heap hidden v d) :
    Holds Γ slots hidden q store where
  vars name ty hname := by
    obtain ⟨hty, held⟩ := h.vars name ty hname
    refine ⟨hty, fun slot hslot => ?_⟩
    rw [hlocals]
    exact hdenotes (held slot hslot)
  bounded a ha := Nat.lt_of_lt_of_le (h.bounded a ha) hsize

/-- Objects that are made are such a change. -/
lemma Holds.same (h : Holds Γ slots hidden p store) (hlocals : q.locals = p.locals)
    (hheap : p.world.heap.Within q.world.heap) : Holds Γ slots hidden q store :=
  h.change hlocals hheap.size_le fun hd => hd.within hheap

/-- Assigning to a variable keeps slots and store in step. -/
lemma Holds.update (h : Holds Γ slots hidden p store) {name : String} {slot : Nat} {ty : Ty}
    {value : Value} {d : Datum} (hname : Γ.vars name = some ty)
    (hslot : slots.get? (.var name) = some slot) (hty : d.HasTy ty)
    (hvalue : Denotes p.world.heap hidden value d) (hworld : q.world = p.world)
    (hlocals : q.locals = writeLocal p.locals slot value) :
    Holds Γ slots hidden q (Function.update store name d) where
  vars other ty' hother := by
    rw [hworld, hlocals]
    by_cases same : other = name
    · subst same
      obtain rfl : ty = ty' := by simpa [hname] using hother
      refine ⟨by simpa using hty, fun slot' hslot' => ?_⟩
      obtain rfl : slot = slot' := by simpa [hslot] using hslot'
      simpa [getD_writeLocal] using hvalue
    · obtain ⟨hty', held⟩ := h.vars other ty' hother
      rw [Function.update_of_ne same]
      refine ⟨hty', fun slot' hslot' => ?_⟩
      have apart : slot' ≠ slot := by
        rintro rfl
        exact same (by simpa using Slots.get?_inj hslot' hslot)
      rw [getD_writeLocal, if_neg apart]
      exact held slot' hslot'
  bounded := by
    rw [hworld]
    exact h.bounded

lemma Holds.reveal {hidden' : Set Nat} (h : Holds Γ slots hidden p store)
    (hsub : hidden' ⊆ hidden) : Holds Γ slots hidden' p store where
  vars name ty hname := by
    obtain ⟨hty, held⟩ := h.vars name ty hname
    exact ⟨hty, fun slot hslot => (held slot hslot).reveal hsub⟩
  bounded a ha := h.bounded a (hsub ha)

end Stores

/-! ## What a piece of code yields -/

/-- A fault is what a mishap looks like on the machine. -/
inductive Mishap.Raises : Mishap → Fault → Prop
  | failed {why : Direct.Failure} {fault : Fault} : Direct.Raises why fault →
      Raises (.failed why) fault
  | outOfBounds (index : Int32) (length : Nat) :
      Raises (.outOfBounds index length) (.indexOutOfBounds index length)

section Yields

variable (s : Site) (Γ : Context) (slots : Slots) (hidden : Set Nat) (literals : Nat)

/-- **What the code of an expression does**, from a point: it leads to the place `pc` with one value
on top of `stack`, which stands for the datum that evaluation gives, or it stops with a fault for
the reason that evaluation fails for.  Either way the variables hold what evaluation leaves in them.
-/
def Yields (p : Point) (pc : Nat) (stack : List Value) (ty : Ty) :
    EStateM.Result Mishap Store Datum → Prop
  | .ok d store => d.HasTy ty ∧ ∃ n value locals w,
      s.Steps p n ⟨pc, value :: stack, locals, w⟩ ∧
      Keeps Γ slots literals p ⟨pc, value :: stack, locals, w⟩ ∧ Denotes w.heap hidden value d ∧
      Holds Γ slots hidden ⟨pc, value :: stack, locals, w⟩ store
  | .error why store => ∃ n q fault, s.Steps p n q ∧ Keeps Γ slots literals p q ∧
      Holds Γ slots hidden q store ∧ s.Fails q fault ∧ why.Raises fault

variable {s Γ slots hidden literals} {p q : Point} {n pc pc' : Nat} {base stack : List Value}
  {ty ty' : Ty}

/-- Steps in front of the code. -/
lemma Yields.after {result : EStateM.Result Mishap Store Datum} (hsteps : s.Steps p n q)
    (hkeeps : Keeps Γ slots literals p q)
    (h : Yields s Γ slots hidden literals q pc stack ty result) :
    Yields s Γ slots hidden literals p pc stack ty result := by
  match result, h with
  | .ok d store, ⟨hty, k, value, locals, w, hk, hkeeps', hvalue, hholds⟩ =>
      exact ⟨hty, n + k, value, locals, w, hsteps.trans hk, hkeeps.trans hkeeps', hvalue, hholds⟩
  | .error why store, ⟨k, r, fault, hk, hkeeps', hholds, hfails, hraises⟩ =>
      exact ⟨n + k, r, fault, hsteps.trans hk, hkeeps.trans hkeeps', hholds, hfails, hraises⟩

/-- **Evaluating one thing and going on with its value.** -/
lemma Yields.bind {x : Eval Datum} {next : Datum → Eval Datum} {store : Store}
    (h : Yields s Γ slots hidden literals p pc base ty (x store))
    (hnext : ∀ d store value locals w, d.HasTy ty → p.world.heap.Within w.heap →
      Denotes w.heap hidden value d → Holds Γ slots hidden ⟨pc, value :: base, locals, w⟩ store →
      Yields s Γ slots hidden literals ⟨pc, value :: base, locals, w⟩ pc' stack ty'
        (next d store)) :
    Yields s Γ slots hidden literals p pc' stack ty' ((x >>= next) store) := by
  show Yields s Γ slots hidden literals p pc' stack ty' (EStateM.bind x next store)
  rw [EStateM.bind]
  cases hx : x store with
  | ok d store =>
      rw [hx] at h
      obtain ⟨hty, n, value, locals, w, hsteps, hkeeps, hvalue, hholds⟩ := h
      exact (hnext d store value locals w hty hkeeps.heap hvalue hholds).after hsteps hkeeps
  | error why store =>
      rw [hx] at h
      exact h

/-- The value is there after some steps that write no slot. -/
lemma Yields.pushed {d : Datum} {store : Store} {value : Value} {w : World}
    (hsteps : s.Steps p n ⟨pc', value :: stack, p.locals, w⟩) (hheap : p.world.heap.Within w.heap)
    (hprinted : w.printed = p.world.printed) (hpc : pc' = pc)
    (hholds : Holds Γ slots hidden p store) (hty : d.HasTy ty)
    (hvalue : Denotes w.heap hidden value d) :
    Yields s Γ slots hidden literals p pc stack ty (.ok d store) := by
  subst hpc
  exact ⟨hty, n, value, p.locals, w, hsteps, keeps_of_same rfl hheap hprinted, hvalue,
    hholds.same rfl hheap⟩

/-- The code stops here. -/
lemma Yields.failed {why : Mishap} {fault : Fault} {store : Store}
    (hholds : Holds Γ slots hidden p store) (hfails : s.Fails p fault)
    (hraises : why.Raises fault) :
    Yields s Γ slots hidden literals p pc stack ty (.error why store) :=
  ⟨0, p, fault, .refl s p, keeps_of_same rfl (.refl _) rfl, hholds, hfails, hraises⟩

end Yields

end Data

end StackBackend
