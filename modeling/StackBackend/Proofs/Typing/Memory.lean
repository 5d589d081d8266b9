import StackBackend.Proofs.Machine.Endless
import Mathlib.Data.List.Forall2
import Mathlib.Logic.Function.Basic
import Mathlib.Tactic.Lemma

/-!
# Typed memory

What the values of a running program are, by their types.  A number is a boxed integer, a list an
object around an array, a function pointer an object that names a function of its signature; and
everything may be `null` instead, since variables are read before they are written and functions end
without a value.

* `HasTy` — a value has a type.  Lists can be changed, so what their arrays may hold is not read off
  the heap but recorded: `backs` gives the element type of every array that is behind a list;
* `Memory` — a heap with such a record, and the proof that every recorded array holds values of its
  type;
* `Memory.Within` — one memory is an earlier state of another: recorded arrays stay recorded, and
  all else stays as it is.  Types are kept (`Within.hasTy`);
* `Memory.exists_text` — a value that has a type has a text: what is in a list is of a smaller type
  than the list, so there is an end to it.

**Objects under construction.**  An object that is not initialized yet, and an array that collects
the arguments of a call, are no values of any type.  They are *open*: `Memory.put` may replace them,
and is no step from the memory they are part of, but it is one from every memory before they were
made (`Within.put`).
-/

namespace StackBackend.Typing

/-- Arguments and results of functions, by name. -/
abbrev Signatures := String → Option (List Ty × Ty)

/-! ## Values -/

/-- **A value has a type**, in a heap where `backs` gives the element types of the arrays behind
lists. -/
inductive HasTy (functions : Signatures) (heap : Heap) (backs : Nat → Option Ty) :
    Value → Ty → Prop
  | null {ty : Ty} : HasTy functions heap backs .null ty
  | int (a : Int32) : HasTy functions heap backs (.integer a) .int
  | bool (b : Bool) : HasTy functions heap backs (.boolean b) .bool
  | text (ident : Nat) (t : String) : HasTy functions heap backs (.text ident t) .string
  | list {address array : Nat} {element : Ty} : heap.get? address = some (.list (.ref array)) →
      backs array = some element → HasTy functions heap backs (.ref address) (.list element)
  | closure {address : Nat} {receiver : Value} {name : String} {args : List Ty} {ret : Ty} :
      heap.get? address = some (.closure receiver name) → functions name = some (args, ret) →
      HasTy functions heap backs (.ref address) (.fptr args ret)

/-- Whether an object is no value yet: it is not initialized, or it is an array. -/
def isOpen : Obj → Bool
  | .uninit _ | .array _ => true
  | _ => false

/-- What types depend on: objects that are not open, and the record. -/
lemma HasTy.transfer {functions : Signatures} {heap heap' : Heap} {backs backs' : Nat → Option Ty}
    {v : Value} {ty : Ty} (h : HasTy functions heap backs v ty)
    (hobjects : ∀ {address obj}, heap.get? address = some obj → isOpen obj = false →
      heap'.get? address = some obj)
    (hbacks : ∀ {array element}, backs array = some element → backs' array = some element) :
    HasTy functions heap' backs' v ty := by
  cases h with
  | null => exact .null
  | int a => exact .int a
  | bool b => exact .bool b
  | text ident t => exact .text ident t
  | list hobj hback => exact .list (hobjects hobj rfl) (hbacks hback)
  | closure hobj hname => exact .closure (hobjects hobj rfl) hname

/-! ## Memory -/

/-- **A heap, with a record of the element types of lists that it keeps to.** -/
structure Memory (functions : Signatures) where
  heap : Heap
  /-- The element type of the lists an array is behind. -/
  backs : Nat → Option Ty
  sound : ∀ {array element}, backs array = some element → ∃ items,
    heap.get? array = some (.array items) ∧ ∀ v ∈ items, HasTy functions heap backs v element

namespace Memory

variable {functions : Signatures}

/-- A value has a type in a memory. -/
abbrev HasTy (M : Memory functions) (v : Value) (ty : Ty) : Prop :=
  Typing.HasTy functions M.heap M.backs v ty

/-- The memory of a heap that nothing is known about. -/
def ofHeap (heap : Heap) : Memory functions where
  heap
  backs _ := none
  sound h := by simp at h

/-- Only arrays are recorded. -/
lemma backs_eq_none (M : Memory functions) {address : Nat} {obj : Obj}
    (hobj : M.heap.get? address = some obj) (hclosed : isOpen obj = false) :
    M.backs address = none := by
  cases hback : M.backs address with
  | none => rfl
  | some element =>
      obtain ⟨items, hitems, -⟩ := M.sound hback
      obtain rfl : obj = .array items := by simpa [hobj] using hitems
      simp [isOpen] at hclosed

lemma backs_size (M : Memory functions) : M.backs M.heap.objects.size = none := by
  cases hback : M.backs M.heap.objects.size with
  | none => rfl
  | some element =>
      obtain ⟨items, hitems, -⟩ := M.sound hback
      simp [Heap.get?_size] at hitems

/-! ### Earlier and later -/

/-- **`M` is an earlier state of `M'`.** -/
structure Within (M M' : Memory functions) : Prop where
  backs : ∀ {array element}, M.backs array = some element → M'.backs array = some element
  rest : ∀ {address obj}, M.heap.get? address = some obj → M.backs address = none →
    M'.heap.get? address = some obj ∧ M'.backs address = none

lemma Within.refl (M : Memory functions) : M.Within M := ⟨fun h => h, fun h h' => ⟨h, h'⟩⟩

lemma Within.trans {M M' M'' : Memory functions} (h : M.Within M') (h' : M'.Within M'') :
    M.Within M'' where
  backs hback := h'.backs (h.backs hback)
  rest hobj hback := by
    obtain ⟨hobj', hback'⟩ := h.rest hobj hback
    exact h'.rest hobj' hback'

/-- **Types are kept.** -/
lemma Within.hasTy {M M' : Memory functions} (h : M.Within M') {v : Value} {ty : Ty}
    (hv : M.HasTy v ty) : M'.HasTy v ty :=
  hv.transfer (fun hobj hclosed => (h.rest hobj (M.backs_eq_none hobj hclosed)).1) h.backs

/-! ### Changes -/

/-- A text is made. -/
def withText (M : Memory functions) : Memory functions where
  heap := { M.heap with texts := M.heap.texts + 1 }
  backs := M.backs
  sound hback := by
    obtain ⟨items, hitems, hall⟩ := M.sound hback
    exact ⟨items, hitems, fun v hv => (hall v hv).transfer (fun h _ => h) fun h => h⟩

lemma within_withText (M : Memory functions) : M.Within M.withText :=
  ⟨fun h => h, fun h h' => ⟨h, h'⟩⟩

/-- An object is made. -/
def push (M : Memory functions) (obj : Obj) : Memory functions where
  heap := (M.heap.alloc obj).2
  backs := M.backs
  sound hback := by
    obtain ⟨items, hitems, hall⟩ := M.sound hback
    exact ⟨items, Heap.get?_alloc_of_get? hitems _,
      fun v hv => (hall v hv).transfer (fun h _ => Heap.get?_alloc_of_get? h _) fun h => h⟩

lemma within_push (M : Memory functions) (obj : Obj) : M.Within (M.push obj) :=
  ⟨fun h => h, fun h h' => ⟨Heap.get?_alloc_of_get? h _, h'⟩⟩

lemma get?_push (M : Memory functions) (obj : Obj) :
    (M.push obj).heap.get? M.heap.objects.size = some obj := by
  simp [push]

/-- Replacing an open object changes no types. -/
lemma hasTy_set (M : Memory functions) {address : Nat} {old : Obj} (obj : Obj)
    (hold : M.heap.get? address = some old) (hopen : isOpen old = true) {v : Value} {ty : Ty}
    (hv : M.HasTy v ty) : Typing.HasTy functions (M.heap.set address obj) M.backs v ty := by
  refine hv.transfer (fun {other found} hfound hclosed => ?_) fun h => h
  have apart : other ≠ address := by
    rintro rfl
    obtain rfl : old = found := by simpa [hold] using hfound
    simp [hopen] at hclosed
  rw [Heap.get?_set hold, if_neg apart]
  exact hfound

/-- An open object is replaced; one that is recorded, by an array that keeps to the record. -/
def put (M : Memory functions) {address : Nat} {old : Obj} (obj : Obj)
    (hold : M.heap.get? address = some old) (hopen : isOpen old = true)
    (hkeeps : ∀ {element}, M.backs address = some element → ∃ items, obj = .array items ∧
      ∀ v ∈ items, M.HasTy v element) : Memory functions where
  heap := M.heap.set address obj
  backs := M.backs
  sound := by
    intro array element hback
    rw [Heap.get?_set hold]
    by_cases same : array = address
    · subst same
      obtain ⟨items, rfl, hall⟩ := hkeeps hback
      exact ⟨items, if_pos rfl, fun v hv => M.hasTy_set _ hold hopen (hall v hv)⟩
    · obtain ⟨items, hitems, hall⟩ := M.sound hback
      exact ⟨items, by rw [if_neg same, hitems], fun v hv => M.hasTy_set _ hold hopen (hall v hv)⟩

/-- Replacing an open object is no step back for a memory that did not have it. -/
lemma Within.put {M₀ M : Memory functions} (h : M₀.Within M) {address : Nat} {old obj : Obj}
    (hfresh : M₀.heap.get? address = none) (hold : M.heap.get? address = some old)
    (hopen : isOpen old = true)
    (hkeeps : ∀ {element}, M.backs address = some element → ∃ items, obj = .array items ∧
      ∀ v ∈ items, M.HasTy v element) : M₀.Within (M.put obj hold hopen hkeeps) where
  backs hback := h.backs hback
  rest {other found} hfound hback := by
    obtain ⟨hfound', hback'⟩ := h.rest hfound hback
    have apart : other ≠ address := by
      rintro rfl
      simp [hfresh] at hfound
    refine ⟨?_, hback'⟩
    show (M.heap.set address obj).get? other = _
    rw [Heap.get?_set hold, if_neg apart, hfound']

/-- Changing the items of a list is a step. -/
lemma within_put (M : Memory functions) {address : Nat} {old obj : Obj} {element : Ty}
    (hback : M.backs address = some element) (hold : M.heap.get? address = some old)
    (hopen : isOpen old = true)
    (hkeeps : ∀ {element}, M.backs address = some element → ∃ items, obj = .array items ∧
      ∀ v ∈ items, M.HasTy v element) : M.Within (M.put obj hold hopen hkeeps) where
  backs hback := hback
  rest {other found} hfound hnone := by
    have apart : other ≠ address := by
      rintro rfl
      simp [hback] at hnone
    refine ⟨?_, hnone⟩
    show (M.heap.set address obj).get? other = _
    rw [Heap.get?_set hold, if_neg apart, hfound]

/-- Recording an array changes no types. -/
lemma hasTy_record (M : Memory functions) {array : Nat} (hfree : M.backs array = none)
    (element : Ty) {v : Value} {ty : Ty} (hv : M.HasTy v ty) :
    Typing.HasTy functions M.heap (Function.update M.backs array (some element)) v ty := by
  refine hv.transfer (fun h _ => h) fun {other found} hback => ?_
  have apart : other ≠ array := by
    rintro rfl
    simp [hfree] at hback
  rw [Function.update_of_ne apart, hback]

/-- An array becomes the one behind a list. -/
def adopt (M : Memory functions) {array : Nat} {items : Array Value}
    (harray : M.heap.get? array = some (.array items)) (hfree : M.backs array = none) (element : Ty)
    (hall : ∀ v ∈ items, M.HasTy v element) : Memory functions where
  heap := M.heap
  backs := Function.update M.backs array (some element)
  sound := by
    intro other ty hback
    by_cases same : other = array
    · subst same
      obtain rfl : element = ty := by simpa using hback
      exact ⟨items, harray, fun v hv => M.hasTy_record hfree element (hall v hv)⟩
    · rw [Function.update_of_ne same] at hback
      obtain ⟨items, hitems, hall⟩ := M.sound hback
      exact ⟨items, hitems, fun v hv => M.hasTy_record hfree element (hall v hv)⟩

lemma Within.adopt {M₀ M : Memory functions} (h : M₀.Within M) {array : Nat} {items : Array Value}
    (hfresh : M₀.heap.get? array = none) (harray : M.heap.get? array = some (.array items))
    (hfree : M.backs array = none) {element : Ty} (hall : ∀ v ∈ items, M.HasTy v element) :
    M₀.Within (M.adopt harray hfree element hall) where
  backs {other ty} hback := by
    have apart : other ≠ array := by
      rintro rfl
      obtain ⟨items, hitems, -⟩ := M₀.sound hback
      simp [hfresh] at hitems
    show Function.update M.backs array (some element) other = some ty
    rw [Function.update_of_ne apart]
    exact h.backs hback
  rest {other found} hfound hback := by
    obtain ⟨hfound', hback'⟩ := h.rest hfound hback
    have apart : other ≠ array := by
      rintro rfl
      simp [hfresh] at hfound
    refine ⟨hfound', ?_⟩
    show Function.update M.backs array (some element) other = none
    rw [Function.update_of_ne apart, hback']

lemma Within.get?_eq_none {M M' : Memory functions} (h : M.Within M') {address : Nat}
    (hnone : M'.heap.get? address = none) : M.heap.get? address = none := by
  cases hobj : M.heap.get? address with
  | none => rfl
  | some obj =>
      cases hback : M.backs address with
      | none => simp [(h.rest hobj hback).1] at hnone
      | some element =>
          obtain ⟨items, hitems, -⟩ := M'.sound (h.backs hback)
          simp [hitems] at hnone

/-- **A list is copied** into an object that was made for it, after `M₀`. -/
lemma exists_copy {M₀ M : Memory functions} (h : M₀.Within M) {address : Nat} {owner : String}
    (hfresh : M₀.heap.get? address = none)
    (huninit : M.heap.get? address = some (.uninit owner)) (hfree : M.backs address = none)
    {items : Array Value} {element : Ty} (hall : ∀ v ∈ items, M.HasTy v element) :
    ∃ M' : Memory functions,
      M'.heap = (M.heap.alloc (.array items)).2.set address (.list (.ref M.heap.objects.size)) ∧
      M₀.Within M' ∧ (∀ {v ty}, M.HasTy v ty → M'.HasTy v ty) ∧
      M'.HasTy (.ref address) (.list element) := by
  let array := M.heap.objects.size
  let copied := M.push (.array items)
  have hcopied : M.Within copied := M.within_push _
  have hitems : copied.heap.get? array = some (.array items) := M.get?_push _
  have hnone : copied.backs array = none := M.backs_size
  let adopted := copied.adopt hitems hnone element fun v hv => hcopied.hasTy (hall v hv)
  obtain ⟨huninit', hfree'⟩ := hcopied.rest huninit hfree
  have apart : address ≠ array := by
    have := Heap.lt_size_of_get? huninit
    exact Nat.ne_of_lt this
  have hopen : adopted.backs address = none := by
    show Function.update copied.backs array (some element) address = none
    rw [Function.update_of_ne apart, hfree']
  have hkeeps : ∀ {ty}, adopted.backs address = some ty → ∃ items,
      Obj.list (.ref array) = .array items ∧ ∀ v ∈ items, adopted.HasTy v ty := by
    intro ty hback
    simp [hopen] at hback
  refine ⟨adopted.put (.list (.ref array)) huninit' rfl hkeeps, rfl, ?_, ?_, ?_⟩
  · have hbefore := h.get?_eq_none M.heap.get?_size
    exact ((h.trans hcopied).adopt hbefore hitems hnone _).put hfresh huninit' rfl hkeeps
  · intro v ty hv
    exact adopted.hasTy_set _ huninit' rfl
      (copied.hasTy_record hnone element (hcopied.hasTy hv))
  · have stored : (copied.heap.set address (.list (.ref array))).get? address
        = some (.list (.ref array)) := by
      rw [Heap.get?_set huninit', if_pos rfl]
    have recorded : Function.update copied.backs array (some element) array = some element :=
      Function.update_self ..
    exact .list stored recorded

/-! ### Values in use -/

/-- A list is `null`, or an object around an array of elements. -/
lemma null_or_items {M : Memory functions} {v : Value} {element : Ty}
    (h : M.HasTy v (.list element)) : v = .null ∨ ∃ address array items, v = .ref address ∧
      M.heap.get? address = some (.list (.ref array)) ∧
      M.heap.get? array = some (.array items) ∧ M.backs array = some element ∧
      ∀ v ∈ items, M.HasTy v element := by
  cases h with
  | null => exact .inl rfl
  | list hobj hback =>
      obtain ⟨items, hitems, hall⟩ := M.sound hback
      exact .inr ⟨_, _, items, rfl, hobj, hitems, hback, hall⟩

/-- **A value of a type has a text.** -/
lemma exists_text {M : Memory functions} :
    ∀ {ty : Ty} {v : Value}, M.HasTy v ty → ∃ text, M.heap.textOf? v = some text
  | _, _, .null | _, _, .int _ | _, _, .bool _ | _, _, .text _ _ => by
      simp [Heap.textOf?, Heap.textWithin]
  | .list element, .ref address, .list hobj hback => by
      obtain ⟨items, hitems, hall⟩ := M.sound hback
      have found := Heap.items?_of_list hobj hitems
      have ends : M.heap.unwraps (.ref address) = true := Heap.unwrapsWithin_of_itemsWithin found
      have each : ∀ v ∈ items.toList, ∃ depth text, M.heap.textWithin depth v = some text := by
        intro v hv
        obtain ⟨text, htext⟩ := exists_text (hall v (by simpa using hv))
        exact ⟨_, text, htext⟩
      obtain ⟨depth, texts, htexts⟩ := Heap.exists_mapM_textWithin each
      have text : M.heap.textWithin (depth + 1) (.ref address)
          = some ("[" ++ ", ".intercalate texts ++ "]") := by
        simp [Heap.textWithin, ends, found, htexts]
      exact ⟨_, Heap.textOf?_of_textWithin text⟩
  | .fptr _ _, .ref address, .closure hobj _ => by
      have ends : M.heap.unwraps (.ref address) = true := by
        rw [Heap.unwraps, Heap.unwrapsWithin]
        simp [Heap.object?, hobj]
      have nothing : M.heap.items? (.ref address) = none := by
        rw [Heap.items?, Heap.itemsWithin]
        simp [Heap.object?, hobj]
      simp [Heap.textOf?, Heap.textWithin, ends, nothing]

/-- **A value passes the check for its type.** -/
lemma checkCast_of_hasTy {M : Memory functions} {v : Value} {ty : Ty} (h : M.HasTy v ty)
    {owner : String} (howner : ty.boxedClass? = some owner) :
    M.heap.checkCast owner v = .ok () := by
  cases h with
  | null => simp [Heap.checkCast]
  | int _ | bool _ | text _ _ =>
      obtain rfl := Option.some.inj howner
      simp [Heap.checkCast, Heap.typeName]
  | list hobj _ | closure hobj _ =>
      obtain rfl := Option.some.inj howner
      simp [Heap.checkCast, Heap.typeName, hobj, Heap.objectTypeName]

/-- Arguments fit a signature: each has the type at its place.  There may be too few of them. -/
def ArgsFit (M : Memory functions) (args : List Value) (tys : List Ty) : Prop :=
  ∀ {place : Nat} {v : Value}, args[place]? = some v →
    ∃ ty, tys[place]? = some ty ∧ M.HasTy v ty

lemma argsFit_of_forall₂ {M : Memory functions} {args : List Value} {tys : List Ty}
    (h : List.Forall₂ M.HasTy args tys) : M.ArgsFit args tys := by
  intro place v hv
  induction h generalizing place with
  | nil => simp at hv
  | cons hfirst _ ih =>
      cases place with
      | zero =>
          obtain rfl := by simpa using hv
          exact ⟨_, rfl, hfirst⟩
      | succ place => exact ih hv

end Memory

end StackBackend.Typing
