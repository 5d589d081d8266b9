import StackBackend.Proofs.Machine.AnalysisSound
import StackBackend.Proofs.Machine.Transitions

/-!
# Objects keep their kind

Code is not checked before it runs, and may call any constructor on anything.  Still an object, once
it is initialized, stays what it is: that follows from what single instructions can do to a heap
(`Heap.Change`), whatever the class and the code.

* `Obj.Becomes` — what one instruction can make of an object;
* `Obj.Ages`, `Heap.Ages` — what any number of instructions can make of it;
* `Heap.Backed` — every list has an array behind it;
* `Heap.Serves` — lists can be read, and the library finds the array behind them.

A heap that is backed stays so (`Heap.Change.backed`), and in it every list serves
(`Heap.Backed.serves`).  `heap_typing_stable` says so of every state of every request.
-/

namespace StackBackend

/-! ## One instruction -/

/-- Whether a constructor has been run on an object. -/
def Obj.isInitialized : Obj → Bool
  | uninit _ => false
  | _ => true

/-- **What an instruction can make of the object at an address**, with the operands `stack`.  Lists,
function pointers and instances stay what they are. -/
inductive Obj.Becomes (c : ClassFile) (h : Heap) (stack : List Value) (i : Instruction) (a : Nat) :
    Obj → Obj → Prop
  | same {obj : Obj} : Becomes c h stack i a obj obj
  /-- A constructor is called on the object, and makes of it what it builds. -/
  | initialized {owner : String} {obj : Obj} : h.Builds c stack a i obj →
      Becomes c h stack i a (.uninit owner) obj
  /-- The constructor is the one that puts a list around a new array, which holds the items of
  another list or array. -/
  | copied {kind : InvokeKind} {owner : String} {source : Value} {items : Array Value}
      {rest : List Value} : i = .invoke kind LibraryMethod.listCopy.ref →
      stack = source :: .ref a :: rest → h.items? source = some items →
      Becomes c h stack i a (.uninit owner) (.list (.ref h.objects.size))
  /-- An item is added at the end of an array. -/
  | grown {kind : InvokeKind} {items : Array Value} {v : Value} {rest : List Value} :
      i = .invoke kind LibraryMethod.arrayAdd.ref → stack = v :: .ref a :: rest →
      Becomes c h stack i a (.array items) (.array (items.push v))
  /-- An item is replaced, through a list around the array and within its bounds. -/
  | replaced {kind : InvokeKind} {items : Array Value} {v : Value} {index : Int32} {l : Nat}
      {rest : List Value} : i = .invoke kind LibraryMethod.listSet.ref →
      stack = v :: .raw index :: .ref l :: rest → h.get? l = some (.list (.ref a)) →
      0 ≤ index.toInt → index.toInt < items.size →
      Becomes c h stack i a (.array items) (.array (items.setIfInBounds index.toInt.toNat v))

namespace Heap

variable {c : ClassFile} {h h' : Heap} {stack : List Value} {i : Instruction} {a : Nat} {obj : Obj}

lemma position_ok {items : Array Value} {index : Int32} {place : Nat}
    (hplace : position items index = .ok place) :
    place = index.toInt.toNat ∧ 0 ≤ index.toInt ∧ index.toInt < items.size := by
  rw [position] at hplace
  split at hplace
  · simp at hplace
  · next hnegative =>
      split at hplace
      · next hlt =>
          have nonnegative : 0 ≤ index.toInt := by
            simpa [Int32.lt_iff_toInt_lt] using hnegative
          exact ⟨by simpa [eq_comm] using hplace, nonnegative, by omega⟩
      · simp at hplace

/-- Constructors initialize. -/
lemma Builds.isInitialized (hbuilds : h.Builds c stack a i obj) : obj.isInitialized = true := by
  cases hbuilds <;> rfl

/-- Replacing one object leaves the others. -/
lemma exists_get?_set {b : Nat} {old new : Obj} (hold : h.get? b = some old)
    (hnew : old.Becomes c h' stack i b new) (hobj : h.get? a = some obj) :
    ∃ obj', (h.set b new).get? a = some obj' ∧ obj.Becomes c h' stack i a obj' := by
  rw [get?_set hold]
  by_cases same : a = b
  · subst same
    obtain rfl : old = obj := by simpa [hold] using hobj
    exact ⟨new, if_pos rfl, hnew⟩
  · exact ⟨obj, by rw [if_neg same, hobj], .same⟩

/-- **Every object is still there after an instruction**, and has become what it can. -/
lemma Change.becomes (hchange : h.Change c stack i h') (hobj : h.get? a = some obj) :
    ∃ obj', h'.get? a = some obj' ∧ obj.Becomes c h stack i a obj' := by
  cases hchange with
  | none => exact ⟨obj, hobj, .same⟩
  | text content => exact ⟨obj, hobj, .same⟩
  | make owner => exact ⟨obj, get?_alloc_of_get? hobj _, .same⟩
  | init hold hbuilds => exact exists_get?_set hold (.initialized hbuilds) hobj
  | copy hstack hold hitems =>
      exact exists_get?_set (get?_alloc_of_get? hold _) (.copied rfl hstack hitems)
        (get?_alloc_of_get? hobj _)
  | add hstack hold => exact exists_get?_set hold (.grown rfl hstack) hobj
  | assign hstack hlist hold hplace =>
      obtain ⟨rfl, nonnegative, hlt⟩ := position_ok hplace
      exact exists_get?_set hold (.replaced rfl hstack hlist nonnegative hlt) hobj

end Heap

/-! ## Any number of instructions -/

/-- **What can become of an object in time.**  It is initialized at most once, and an array never
shrinks. -/
inductive Obj.Ages : Obj → Obj → Prop
  | same {obj : Obj} : Ages obj obj
  | initialized {owner : String} {obj : Obj} : obj.isInitialized = true → Ages (.uninit owner) obj
  | array {items items' : Array Value} : items.size ≤ items'.size →
      Ages (.array items) (.array items')

lemma Obj.Ages.trans {obj obj' obj'' : Obj} (h : obj.Ages obj') (h' : obj'.Ages obj'') :
    obj.Ages obj'' := by
  cases h with
  | same => exact h'
  | initialized hinit =>
      cases h' with
      | same => exact .initialized hinit
      | initialized _ => simp [isInitialized] at hinit
      | array _ => exact .initialized rfl
  | array hle =>
      cases h' with
      | same => exact .array hle
      | array hle' => exact .array (Nat.le_trans hle hle')

lemma Obj.Becomes.ages {c : ClassFile} {h : Heap} {stack : List Value} {i : Instruction} {a : Nat}
    {obj obj' : Obj} (hbecomes : obj.Becomes c h stack i a obj') : obj.Ages obj' := by
  cases hbecomes with
  | same => exact .same
  | initialized hbuilds => exact .initialized hbuilds.isInitialized
  | copied _ _ _ => exact .initialized rfl
  | grown _ _ => exact .array (by simp)
  | replaced _ _ _ _ _ => exact .array (by simp)

namespace Heap

/-- Every object is still there, and has become what it can in time. -/
def Ages (h h' : Heap) : Prop :=
  ∀ a obj, h.get? a = some obj → ∃ obj', h'.get? a = some obj' ∧ obj.Ages obj'

/-- **Every list has an array behind it.** -/
def Backed (h : Heap) : Prop :=
  ∀ a v, h.get? a = some (.list v) → ∃ b items, v = .ref b ∧ h.get? b = some (.array items)

variable {c : ClassFile} {h h' h'' : Heap} {stack : List Value} {i : Instruction}

lemma ages_refl (h : Heap) : h.Ages h := fun _ obj hobj => ⟨obj, hobj, .same⟩

lemma ages_alloc (h : Heap) (obj : Obj) : h.Ages (h.alloc obj).2 :=
  fun _ old hold => ⟨old, get?_alloc_of_get? hold obj, .same⟩

lemma Ages.trans (hages : h.Ages h') (hages' : h'.Ages h'') : h.Ages h'' := by
  intro a obj hobj
  obtain ⟨obj', hobj', hages₁⟩ := hages a obj hobj
  obtain ⟨obj'', hobj'', hages₂⟩ := hages' a obj' hobj'
  exact ⟨obj'', hobj'', hages₁.trans hages₂⟩

lemma Change.ages (hchange : h.Change c stack i h') : h.Ages h' := by
  intro a obj hobj
  obtain ⟨obj', hobj', hbecomes⟩ := hchange.becomes hobj
  exact ⟨obj', hobj', hbecomes.ages⟩

/-- An array stays an array. -/
lemma Ages.array (hages : h.Ages h') {b : Nat} {items : Array Value}
    (hitems : h.get? b = some (.array items)) : ∃ items', h'.get? b = some (.array items') := by
  obtain ⟨obj', hobj', hbecomes⟩ := hages b _ hitems
  cases hbecomes with
  | same => exact ⟨items, hobj'⟩
  | array _ => exact ⟨_, hobj'⟩

/-- **Where a list, a function pointer or an instance comes from**: it was there before the
instruction, or the instruction is the call of its constructor. -/
lemma Change.origin (hchange : h.Change c stack i h') {a : Nat} {obj : Obj}
    (hobj : h'.get? a = some obj) (hfixed : obj.isFixed = true) :
    h.get? a = some obj ∨ h.Builds c stack a i obj ∨
      ∃ items, obj = .list (.ref h.objects.size) ∧
        h'.get? h.objects.size = some (.array items) := by
  -- an array that replaces another is not what is asked for
  have kept : ∀ {b : Nat} {old : Obj} {items : Array Value}, h.get? b = some old →
      (h.set b (.array items)).get? a = some obj → h.get? a = some obj := by
    intro b old items hold hset
    rw [get?_set hold] at hset
    split at hset
    · obtain rfl := by simpa using hset
      simp [Obj.isFixed] at hfixed
    · exact hset
  cases hchange with
  | none => exact .inl hobj
  | text _ => exact .inl hobj
  | make owner =>
      rw [get?_alloc] at hobj
      split at hobj
      · obtain rfl := by simpa using hobj
        simp [Obj.isFixed] at hfixed
      · exact .inl hobj
  | init hold hbuilds =>
      rw [get?_set hold] at hobj
      split at hobj
      · next same =>
          subst same
          obtain rfl := by simpa using hobj
          exact .inr (.inl hbuilds)
      · exact .inl hobj
  | @copy _ b owner source items _ _ hold _ =>
      obtain ⟨-, hitems⟩ := get?_wrapCopy hold items
      rw [wrapCopy, get?_set (get?_alloc_of_get? hold _)] at hobj
      split at hobj
      · exact .inr (.inr ⟨items, by simpa [eq_comm] using hobj, hitems⟩)
      · rw [get?_alloc] at hobj
        split at hobj
        · obtain rfl := by simpa using hobj
          simp [Obj.isFixed] at hfixed
        · exact .inl hobj
  | add _ hold => exact .inl (kept hold hobj)
  | assign _ _ hold _ => exact .inl (kept hold hobj)

/-- **Lists stay backed.** -/
lemma Change.backed (hchange : h.Change c stack i h') (hbacked : h.Backed) : h'.Backed := by
  intro a v hlist
  rcases hchange.origin hlist rfl with hold | hbuilds | ⟨items, hv, hitems⟩
  · obtain ⟨b, items, rfl, hitems⟩ := hbacked a v hold
    obtain ⟨items', hitems'⟩ := hchange.ages.array hitems
    exact ⟨b, items', rfl, hitems'⟩
  · cases hbuilds with
    | list _ hitems =>
        obtain ⟨items', hitems'⟩ := hchange.ages.array hitems
        exact ⟨_, items', rfl, hitems'⟩
  · obtain rfl := by simpa using hv
    exact ⟨_, items, rfl, hitems⟩

/-- Making an object that is no list leaves lists backed. -/
lemma Backed.alloc (hbacked : h.Backed) {obj : Obj} (hobj : ∀ v, obj ≠ .list v) :
    (h.alloc obj).2.Backed := by
  intro a v hlist
  rw [get?_alloc] at hlist
  split at hlist
  · exact absurd (by simpa using hlist) (hobj v)
  · obtain ⟨b, items, rfl, hitems⟩ := hbacked a v hlist
    exact ⟨b, items, rfl, get?_alloc_of_get? hitems obj⟩

/-- **Lists serve**: their items can be read, and reading or replacing an item never finds something
else than an array behind a list. -/
def Serves (h : Heap) : Prop :=
  ∀ a v, h.get? a = some (.list v) → (∃ items, h.items? (.ref a) = some items) ∧
    ∀ args found,
      LibraryMethod.listGet.perform h (.ref a) args ≠ .error (.typeMismatch ClassName.array found) ∧
      LibraryMethod.listSet.perform h (.ref a) args ≠ .error (.typeMismatch ClassName.array found)

/-- A place that is no place is reported as such. -/
lemma position_ne_typeMismatch (items : Array Value) (index : Int32) (expected found : String) :
    position items index ≠ .error (.typeMismatch expected found) := by
  rw [position]
  split
  · simp
  · split <;> simp

lemma rawInt_ne_typeMismatch (h : Heap) (v : Value) (found : String) :
    h.rawInt v ≠ .error (.typeMismatch ClassName.array found) := by
  have apart : "int" ≠ ClassName.array := by decide
  cases v <;> simp [rawInt, mismatch, apart]

/-- What does not come from the parts of a computation does not come from it. -/
lemma bind_ne_error {α β : Type} {x : Except Fault α} {f : α → Except Fault β} {e : Fault}
    (hx : x ≠ .error e) (hf : ∀ b, f b ≠ .error e) : (x >>= f) ≠ .error e := by
  cases x with
  | error e' =>
      intro heq
      exact hx (by simpa [Bind.bind, Except.bind] using heq)
  | ok b => exact hf b

lemma Backed.serves (hbacked : h.Backed) : h.Serves := by
  intro a v hlist
  obtain ⟨b, items, rfl, hitems⟩ := hbacked a v hlist
  refine ⟨⟨items, items?_of_list hlist hitems⟩, fun args found => ⟨?_, ?_⟩⟩
  all_goals
    refine bind_ne_error (h.rawInt_ne_typeMismatch _ found) fun index => ?_
    refine bind_ne_error (by simp [backing_of_list hlist hitems]) fun behind => ?_
    exact bind_ne_error (position_ne_typeMismatch _ index _ found) fun place => by simp

end Heap

/-! ## Runs and requests -/

namespace Machine

variable {c : ClassFile} {m m' : Machine} {P : Heap → Prop}

/-- What every change of the heap keeps, every move keeps. -/
lemma Moves.preserves_heap {k : Nat} (hmove : Moves c m k m')
    (step : ∀ {h h' : Heap} {stack : List Value} {i : Instruction},
      P h → h.Change c stack i h' → P h') (hm : P m.world.heap) : P m'.world.heap := by
  cases hmove with
  | @execute _ i _ _ hi hexec hfollow =>
      have changed := m.frame.advanced.execute_change c i m.world
      rw [hexec] at changed
      rw [(world_follow hfollow).1]
      exact step hm changed
  | fall _ _ => exact hm

lemma Leads.preserves_heap {n : Nat} (hleads : Leads c m n m')
    (step : ∀ {h h' : Heap} {stack : List Value} {i : Instruction},
      P h → h.Change c stack i h' → P h') (hm : P m.world.heap) : P m'.world.heap := by
  induction hleads with
  | refl => exact hm
  | move hmove _ ih => exact ih (hmove.preserves_heap step hm)

/-- The last instruction of a run changes the heap like any other, also if it fails. -/
lemma run_preserves_heap
    (step : ∀ {h h' : Heap} {stack : List Value} {i : Instruction},
      P h → h.Change c stack i h' → P h') (limit budget taken : Nat) (hm : P m.world.heap) :
    P (run c limit budget taken m).world.heap := by
  have ended := run_ends c limit budget taken m
  generalize run c limit budget taken m = e at ended
  cases ended with
  | @stops _ _ last _ _ hleads hstops _ =>
      have reached := hleads.preserves_heap step hm
      cases hstops with
      | @fault i _ _ _ hexec | @exit i _ _ _ _ hexec _ =>
          have changed := last.frame.advanced.execute_change c i last.world
          rw [hexec] at changed
          exact step reached changed
      | fall _ _ => exact reached
  | limit hleads _ => exact hleads.preserves_heap step hm

end Machine

lemma Session.answer_preserves_heap {s : Session} {P : Heap → Prop}
    (step : ∀ {h h' : Heap} {stack : List Value} {i : Instruction}, P h →
      h.Change s.classFile stack i h' → P h')
    (hs : P s.world.heap) (request : Request) : P (s.answer request).2.world.heap := by
  cases hfirst : s.opening request with
  | error e =>
      rw [answer_of_error hfirst]
      exact hs
  | ok first =>
      rw [answer_of_opening hfirst]
      obtain ⟨frame, -, rfl⟩ := opening_eq_ok.1 hfirst
      exact Machine.run_preserves_heap step s.stepLimit _ s.steps hs

open Machine in
/-- **Objects keep their kind, whatever the code.**  In a session on any class, where every list has
an array behind it, ask for anything, or for an instance.  Then every list has an array behind it in
each state of the run and in the end, and serves.  From any of these states to a later one an object
is initialized at most once and otherwise stays what it is, but that arrays may grow and have items
replaced.  An instruction initializes an object only by calling a constructor on it; it changes an
array only by adding an item at its end, or through a list around it by replacing an item within
bounds. -/
theorem heap_typing_stable {s : Session} (hbacked : s.world.heap.Backed) (request : Request) :
    let last := (s.answer request).2.world.heap
    let made := s.newInstance.2.world.heap
    (last.Backed ∧ last.Serves ∧ s.world.heap.Ages last) ∧
      (made.Backed ∧ made.Serves ∧ s.world.heap.Ages made) ∧
      ∀ first, s.opening request = .ok first →
        ∀ n m, Leads s.classFile first n m →
          m.world.heap.Backed ∧ m.world.heap.Serves ∧ s.world.heap.Ages m.world.heap ∧
          (∀ n' m', Leads s.classFile m n' m' → m.world.heap.Ages m'.world.heap) ∧
          ∀ i, m.frame.code[m.frame.pc]? = some i → ∀ a obj, m.world.heap.get? a = some obj →
            ∃ obj', (m.frame.advanced.execute s.classFile i m.world).2.heap.get? a = some obj' ∧
              obj.Becomes s.classFile m.world.heap m.frame.stack i a obj' := by
  intro last made
  have step : ∀ {h₀ h h' : Heap} {stack : List Value} {i : Instruction},
      h.Backed ∧ h₀.Ages h → h.Change s.classFile stack i h' → h'.Backed ∧ h₀.Ages h' :=
    fun hh hchange => ⟨hchange.backed hh.1, hh.2.trans hchange.ages⟩
  refine ⟨?_, ?_, ?_⟩
  · have reached := s.answer_preserves_heap step ⟨hbacked, s.world.heap.ages_refl⟩ request
    exact ⟨reached.1, reached.1.serves, reached.2⟩
  · have backed : made.Backed := hbacked.alloc (by simp)
    exact ⟨backed, backed.serves, s.world.heap.ages_alloc _⟩
  · intro first hfirst n m hleads
    obtain ⟨frame, -, rfl⟩ := Session.opening_eq_ok.1 hfirst
    obtain ⟨backed, ages⟩ := hleads.preserves_heap step ⟨hbacked, s.world.heap.ages_refl⟩
    refine ⟨backed, backed.serves, ages, ?_, ?_⟩
    · intro n' m' hleads'
      exact (hleads'.preserves_heap step ⟨backed, m.world.heap.ages_refl⟩).2
    · intro i _ a obj hobj
      exact (m.frame.advanced.execute_change s.classFile i m.world).becomes hobj

/-- A list of one number, whose item is replaced. -/
theorem heap_typing_stable_assignment :
    let s : Session :=
      { classFile := countingClass
        world := { heap := { objects := #[.array #[.integer 1], .list (.ref 0)] } } }
    let request : Request := .fragment #[.load 0, .ldc (.int 0), .ldc (.int 7),
      .callStatic .integerValueOf, .callVirtual .listSet] #[.ref 1]
    let last := (s.answer request).2.world.heap
    s.world.heap.Backed ∧ last.get? 0 = some (.array #[.integer 7]) ∧ last.Backed ∧ last.Serves ∧
      s.world.heap.Ages last := by
  intro s request last
  have backed : s.world.heap.Backed := by
    intro a v hlist
    match a with
    | 0 => simp [s, Heap.get?] at hlist
    | 1 => exact ⟨0, #[.integer 1], by simpa [s, Heap.get?, eq_comm] using hlist, rfl⟩
    | a + 2 => simp [s, Heap.get?] at hlist
  obtain ⟨reached, -⟩ := heap_typing_stable backed request
  exact ⟨backed, by rfl, reached⟩

end StackBackend
