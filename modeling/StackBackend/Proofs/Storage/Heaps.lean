import StackBackend.Proofs.Machine.Heap
import Mathlib.Data.Set.Insert

/-!
# Objects that nobody else can see

Which objects a piece of code can change depends on which it can see.  A set of addresses is hidden
from code when no value the code starts with leads there; what is hidden stays as it is.

**Heaps.**

* `Heap.Sees h hidden v` — a value refers, if to an object at all, to one that exists and is not
  hidden;
* `Heap.Guards h hidden` — objects that are not hidden see only such objects;
* `Heap.Sealed h hidden` — references lead to objects, some of which are hidden from the others;
* `Heap.Orderly h` — every list has an array to itself.

**Changes.**  `Heap.Kept hidden h h'` says what is the same later on: hidden objects, everything
that was initialized and is no array, and the lengths of lists.  `Heap.Turns` is one step of a heap:
it stays sealed, and in order if it was; the array behind a list comes out with the items it had,
unless one list, which the step is about, has that array.  The lemmas `turns_…` go through the ways
a heap changes: an object is made, an object is initialized, a list is put around an array or around
a copy, an array grows, an item is replaced.
-/

namespace StackBackend

/-- The values an object holds. -/
def Obj.values : Obj → List Value
  | array items => items.toList
  | list backing => [backing]
  | closure receiver _ => [receiver]
  | uninit _ | inst _ => []

/-- Whether an object never changes: it is initialized and no array. -/
def Obj.isFixed : Obj → Bool
  | list _ | closure _ _ | inst _ => true
  | uninit _ | array _ => false

namespace Heap

/-! ## What values see -/

/-- **A value refers to nothing hidden**, and to nothing that is not there. -/
def Sees (h : Heap) (hidden : Set Nat) (v : Value) : Prop :=
  ∀ a, v = .ref a → a < h.objects.size ∧ a ∉ hidden

/-- Objects that are not hidden refer to nothing hidden. -/
def Guards (h : Heap) (hidden : Set Nat) : Prop :=
  ∀ a obj, h.get? a = some obj → a ∉ hidden → ∀ v ∈ obj.values, h.Sees hidden v

/-- No list is around the array at an address. -/
def Loose (h : Heap) (b : Nat) : Prop := ∀ a, h.get? a ≠ some (.list (.ref b))

/-- **Every list has an array to itself.** -/
structure Orderly (h : Heap) : Prop where
  backed : ∀ {a v}, h.get? a = some (.list v) →
    ∃ b items, v = .ref b ∧ h.get? b = some (.array items)
  unshared : ∀ {a a' v}, h.get? a = some (.list v) → h.get? a' = some (.list v) → a = a'

/-- **References lead to objects**, and some objects are hidden from the others. -/
structure Sealed (h : Heap) (hidden : Set Nat) : Prop where
  grounded : h.Guards ∅
  guards : h.Guards hidden
  bounded : ∀ a ∈ hidden, a < h.objects.size

variable {h h' h'' : Heap} {hidden hidden' : Set Nat} {v : Value} {a b : Nat} {obj old : Obj}

lemma Sees.mono (hv : h.Sees hidden v) (hgrows : h.objects.size ≤ h'.objects.size)
    (hsub : hidden' ⊆ hidden) : h'.Sees hidden' v := by
  intro a ha
  obtain ⟨there, shown⟩ := hv a ha
  exact ⟨by omega, fun hidden => shown (hsub hidden)⟩

lemma Sees.grounded (hv : h.Sees hidden v) : h.Sees ∅ v :=
  hv.mono (Nat.le_refl _) (Set.empty_subset _)

/-- What is hidden now was not there before. -/
lemma Sees.hide (hv : h.Sees hidden v) (hfresh : ∀ a ∈ hidden', a ∈ hidden ∨ h.objects.size ≤ a) :
    h.Sees hidden' v := by
  intro a ha
  obtain ⟨there, shown⟩ := hv a ha
  refine ⟨there, fun hhidden => ?_⟩
  rcases hfresh a hhidden with hold | hnew
  · exact shown hold
  · omega

lemma sees_of_scalar (hv : ∀ a, v ≠ .ref a) : h.Sees hidden v := fun a ha => absurd ha (hv a)

@[simp] lemma sees_null : h.Sees hidden .null := sees_of_scalar (by simp)

@[simp] lemma sees_ref : h.Sees hidden (.ref a) ↔ a < h.objects.size ∧ a ∉ hidden := by
  simp [Sees]

/-- The items that are copied out of a list or an array are those of an object that can be seen. -/
lemma sees_itemsWithin (hguards : h.Guards hidden) {wrappers : Nat} {items : Array Value}
    (hv : h.Sees hidden v) (hitems : h.itemsWithin wrappers v = some items) :
    ∀ x ∈ items.toList, h.Sees hidden x := by
  induction wrappers generalizing v with
  | zero =>
      rw [itemsWithin] at hitems
      split at hitems
      · next array harray =>
          obtain rfl : array = items := by simpa using hitems
          cases v with
          | ref a => exact hguards a _ harray (hv a rfl).2
          | _ => simp [object?] at harray
      · simp at hitems
      · simp at hitems
  | succ wrappers ih =>
      rw [itemsWithin] at hitems
      split at hitems
      · next array harray =>
          obtain rfl : array = items := by simpa using hitems
          cases v with
          | ref a => exact hguards a _ harray (hv a rfl).2
          | _ => simp [object?] at harray
      · next backing hlist =>
          cases v with
          | ref a => exact ih (hguards a _ hlist (hv a rfl).2 backing (by simp [Obj.values])) hitems
          | _ => simp [object?] at hlist
      · simp at hitems

/-! ## What stays the same -/

/-- **What a change of the heap keeps**: hidden objects, what was initialized and is no array, and
the lengths of lists. -/
structure Kept (hidden : Set Nat) (h h' : Heap) : Prop where
  grows : h.objects.size ≤ h'.objects.size
  hides : ∀ {a}, a ∈ hidden → a < h.objects.size → h'.get? a = h.get? a
  fixed : ∀ {a obj}, h.get? a = some obj → obj.isFixed = true → h'.get? a = some obj
  sizes : ∀ {a b items}, h.get? a = some (.list (.ref b)) → h.get? b = some (.array items) →
    ∃ items', h'.get? b = some (.array items') ∧ items'.size = items.size

lemma Kept.refl (hidden : Set Nat) (h : Heap) : Kept hidden h h :=
  ⟨Nat.le_refl _, fun _ _ => rfl, fun hobj _ => hobj, fun _ hitems => ⟨_, hitems, rfl⟩⟩

lemma Kept.trans (hk : Kept hidden h h') (hk' : Kept hidden h' h'') : Kept hidden h h'' where
  grows := Nat.le_trans hk.grows hk'.grows
  hides ha hlt := (hk'.hides ha (Nat.lt_of_lt_of_le hlt hk.grows)).trans (hk.hides ha hlt)
  fixed hobj hfixed := hk'.fixed (hk.fixed hobj hfixed) hfixed
  sizes hlist hitems := by
    obtain ⟨items', hitems', hsize⟩ := hk.sizes hlist hitems
    obtain ⟨items'', hitems'', hsize'⟩ := hk'.sizes (hk.fixed hlist rfl) hitems'
    exact ⟨items'', hitems'', hsize'.trans hsize⟩

lemma Kept.mono (hk : Kept hidden h h') (hsub : hidden' ⊆ hidden) : Kept hidden' h h' :=
  ⟨hk.grows, fun ha => hk.hides (hsub ha), hk.fixed, hk.sizes⟩

lemma Kept.sees (hk : Kept hidden' h h') (hv : h.Sees hidden v) : h'.Sees hidden v :=
  hv.mono hk.grows subset_rfl

lemma Kept.object? (hk : Kept hidden h h') (hv : h.object? v = some obj)
    (hfixed : obj.isFixed = true) : h'.object? v = some obj := by
  cases v with
  | ref a => exact hk.fixed hv hfixed
  | _ => simp [Heap.object?] at hv

/-- A hidden array that no list is around stays so: lists that are made see no hidden array. -/
lemma Kept.loose (hk : Kept hidden h h') (hguards : h'.Guards hidden) (hb : b ∈ hidden)
    (hhidden : ∀ a ∈ hidden, a < h.objects.size) (hloose : h.Loose b) : h'.Loose b := by
  intro a hlist
  by_cases ha : a ∈ hidden
  · exact hloose a (hk.hides ha (hhidden a ha) ▸ hlist)
  · exact (hguards a _ hlist ha (.ref b) (by simp [Obj.values]) b rfl).2 hb

/-- **What was hidden is shown**: objects that saw nothing hidden from outside still do not. -/
lemma Guards.reveal (hguards : h.Guards hidden) (hguards' : h'.Guards hidden')
    (hk : Kept hidden' h h') (hsub : hidden ⊆ hidden')
    (hhidden : ∀ a ∈ hidden', a < h.objects.size) :
    h'.Guards hidden := by
  intro a obj hobj ha v hv
  by_cases ha' : a ∈ hidden'
  · exact hk.sees (hguards a _ (hk.hides ha' (hhidden a ha') ▸ hobj) ha v hv)
  · exact (hguards' a _ hobj ha' v hv).mono (Nat.le_refl _) hsub

/-- What is not there yet may be hidden. -/
lemma Guards.hide (hguards : h.Guards hidden) (hsub : hidden ⊆ hidden')
    (hfresh : ∀ a ∈ hidden', a ∈ hidden ∨ h.objects.size ≤ a) : h.Guards hidden' :=
  fun a _ hobj ha v hv => (hguards a _ hobj (fun hhidden => ha (hsub hhidden)) v hv).hide hfresh

/-! ## Objects that are made -/

lemma kept_alloc (hidden : Set Nat) (h : Heap) (obj : Obj) : Kept hidden h (h.alloc obj).2 where
  grows := by rw [size_alloc]; omega
  hides _ hlt := by rw [get?_alloc, if_neg (Nat.ne_of_lt hlt)]
  fixed hobj _ := by rw [get?_alloc, if_neg (Nat.ne_of_lt (lt_size_of_get? hobj)), hobj]
  sizes _ hitems := ⟨_, by rw [get?_alloc, if_neg (Nat.ne_of_lt (lt_size_of_get? hitems)), hitems],
    rfl⟩

lemma Guards.alloc (hguards : h.Guards hidden)
    (hvalues : h.objects.size ∉ hidden → ∀ v ∈ obj.values, h.Sees hidden v) :
    (h.alloc obj).2.Guards hidden := by
  intro a obj' hobj' ha v hv
  rw [get?_alloc] at hobj'
  have seen : h.Sees hidden v := by
    split at hobj'
    · next same =>
        obtain rfl : obj = obj' := by simpa using hobj'
        exact hvalues (same ▸ ha) v hv
    · exact hguards a _ hobj' ha v hv
  exact (kept_alloc hidden h obj).sees seen

/-- A new object is no list. -/
lemma Orderly.alloc (horderly : h.Orderly) (hlist : ∀ v, obj ≠ .list v) :
    (h.alloc obj).2.Orderly := by
  have old : ∀ {a v}, (h.alloc obj).2.get? a = some (.list v) → h.get? a = some (.list v) := by
    intro a v ha
    rw [get?_alloc] at ha
    split at ha
    · exact absurd (by simpa using ha) (hlist v)
    · exact ha
  refine ⟨fun ha => ?_, fun ha ha' => ?_⟩
  · obtain ⟨b, items, rfl, hitems⟩ := horderly.backed (old ha)
    refine ⟨b, items, rfl, ?_⟩
    rw [get?_alloc, if_neg (Nat.ne_of_lt (lt_size_of_get? hitems)), hitems]
  · exact horderly.unshared (old ha) (old ha')

/-- No list is around a new object: what lists are around has been there before. -/
lemma Sealed.loose_alloc (hsealed : h.Sealed hidden) (hlist : ∀ v, obj ≠ .list v) :
    (h.alloc obj).2.Loose h.objects.size := by
  intro l hl
  have old : h.get? l = some (.list (.ref h.objects.size)) := by
    rw [get?_alloc] at hl
    split at hl
    · exact absurd (by simpa using hl) (hlist (.ref h.objects.size))
    · exact hl
  have there := (hsealed.grounded l _ old (by simp) (.ref h.objects.size)
    (by simp [Obj.values]) _ rfl).1
  exact Nat.lt_irrefl _ there

/-! ## Objects that change -/

lemma Guards.set (hguards : h.Guards hidden) (hold : h.get? a = some old)
    (hvalues : a ∉ hidden → ∀ v ∈ obj.values, h.Sees hidden v) : (h.set a obj).Guards hidden := by
  intro b obj' hobj' hb v hv
  rw [get?_set hold] at hobj'
  have seen : h.Sees hidden v := by
    split at hobj'
    · next same =>
        obtain rfl : obj = obj' := by simpa using hobj'
        exact hvalues (same ▸ hb) v hv
    · exact hguards b _ hobj' hb v hv
  exact seen.mono (by rw [size_set]) subset_rfl

/-- An object that was not fixed, and an array that no list is around or that keeps its length, may
be replaced if it is not hidden. -/
lemma kept_set (hold : h.get? a = some old) (ha : a ∉ hidden) (hfixed : old.isFixed = false)
    (harray : ∀ items, old = .array items → h.Loose a ∨
      ∃ items', obj = .array items' ∧ items'.size = items.size) : Kept hidden h (h.set a obj) where
  grows := by rw [size_set]
  hides hb _ := by
    rw [get?_set hold, if_neg]
    rintro rfl
    exact ha hb
  fixed hobj hobj' := by
    rw [get?_set hold, if_neg, hobj]
    rintro rfl
    obtain rfl : old = _ := by simpa [hold] using hobj
    simp [hfixed] at hobj'
  sizes {l b items} hlist hitems := by
    rw [get?_set hold]
    split
    · next same =>
        subst same
        obtain rfl : old = .array items := by simpa [hold] using hitems
        rcases harray items rfl with hloose | ⟨items', rfl, hsize⟩
        · exact absurd hlist (hloose l)
        · exact ⟨items', rfl, hsize⟩
    · exact ⟨items, hitems, rfl⟩

/-- An object may be replaced by one that is no list, and by an array if it was one. -/
lemma Orderly.set (horderly : h.Orderly) (hold : h.get? a = some old)
    (hlist : ∀ v, obj ≠ .list v)
    (harray : ∀ items, old = .array items → ∃ items', obj = .array items') :
    (h.set a obj).Orderly := by
  have earlier : ∀ {b v}, (h.set a obj).get? b = some (.list v) → h.get? b = some (.list v) := by
    intro b v hb
    rw [get?_set hold] at hb
    split at hb
    · exact absurd (by simpa using hb) (hlist v)
    · exact hb
  refine ⟨fun hb => ?_, fun hb hb' => ?_⟩
  · obtain ⟨b, items, rfl, hitems⟩ := horderly.backed (earlier hb)
    by_cases same : b = a
    · subst same
      obtain ⟨items', rfl⟩ := harray items (by simpa [hold] using hitems)
      exact ⟨b, items', rfl, by rw [get?_set hold, if_pos rfl]⟩
    · exact ⟨b, items, rfl, by rw [get?_set hold, if_neg same, hitems]⟩
  · exact horderly.unshared (earlier hb) (earlier hb')

/-- **A list may be put around an array that no list is around.** -/
lemma Orderly.wrap (horderly : h.Orderly) {owner : String} (hold : h.get? a = some (.uninit owner))
    {items : Array Value} (hitems : h.get? b = some (.array items)) (hloose : h.Loose b) :
    (h.set a (.list (.ref b))).Orderly := by
  have apart : b ≠ a := by
    rintro rfl
    simp [hold] at hitems
  have earlier : ∀ {c v}, (h.set a (.list (.ref b))).get? c = some (.list v) →
      c = a ∧ v = .ref b ∨ c ≠ a ∧ h.get? c = some (.list v) := by
    intro c v hc
    rw [get?_set hold] at hc
    split at hc
    · next same => exact .inl ⟨same, by simpa [eq_comm] using hc⟩
    · next other => exact .inr ⟨other, hc⟩
  refine ⟨fun hc => ?_, fun hc hc' => ?_⟩
  · rcases earlier hc with ⟨-, rfl⟩ | ⟨-, hc⟩
    · exact ⟨b, items, rfl, by rw [get?_set hold, if_neg apart, hitems]⟩
    · obtain ⟨d, items', rfl, hitems'⟩ := horderly.backed hc
      refine ⟨d, items', rfl, ?_⟩
      rw [get?_set hold, if_neg, hitems']
      rintro rfl
      simp [hold] at hitems'
  · rcases earlier hc with ⟨rfl, rfl⟩ | ⟨-, first⟩ <;>
      rcases earlier hc' with ⟨rfl, hv⟩ | ⟨-, second⟩
    · rfl
    · exact absurd second (hloose _)
    · exact absurd (hv ▸ first) (hloose _)
    · exact horderly.unshared first second

/-! ## Steps of a heap -/

lemma Sealed.newText (hsealed : h.Sealed hidden) (content : String) :
    (h.newText content).2.Sealed hidden :=
  ⟨hsealed.grounded, hsealed.guards, hsealed.bounded⟩

/-- A new object may hold whatever can be seen. -/
lemma Sealed.alloc (hsealed : h.Sealed hidden) (hvalues : ∀ v ∈ obj.values, h.Sees hidden v) :
    (h.alloc obj).2.Sealed hidden where
  grounded := hsealed.grounded.alloc fun _ v hv => (hvalues v hv).grounded
  guards := hsealed.guards.alloc fun _ => hvalues
  bounded a ha := Nat.lt_of_lt_of_le (hsealed.bounded a ha) (kept_alloc hidden h obj).grows

/-- So may one that takes the place of another. -/
lemma Sealed.set (hsealed : h.Sealed hidden) (hold : h.get? a = some old)
    (hvalues : ∀ v ∈ obj.values, h.Sees hidden v) : (h.set a obj).Sealed hidden where
  grounded := hsealed.grounded.set hold fun _ v hv => (hvalues v hv).grounded
  guards := hsealed.guards.set hold fun _ => hvalues
  bounded a ha := by
    rw [size_set]
    exact hsealed.bounded a ha

lemma Sealed.bounded_of_kept (hsealed : h.Sealed hidden) (hk : Kept hidden' h h') :
    ∀ a ∈ hidden, a < h'.objects.size :=
  fun a ha => Nat.lt_of_lt_of_le (hsealed.bounded a ha) hk.grows

/-- What is made is not hidden. -/
lemma Sealed.fresh (hsealed : h.Sealed hidden) : h.objects.size ∉ hidden :=
  fun hhidden => Nat.lt_irrefl _ (hsealed.bounded _ hhidden)

/-- **One step of a heap**, seen by code from which some objects are hidden. -/
structure Turns (hidden : Set Nat) (target : Value) (h h' : Heap) : Prop where
  sealed : h'.Sealed hidden
  kept : Kept hidden h h'
  orderly : h.Orderly → h'.Orderly
  /-- The array behind a list keeps its items, unless `target` is a list around it. -/
  calm : ∀ {l b items}, h.get? l = some (.list (.ref b)) → h.get? b = some (.array items) →
    h'.get? b = some (.array items) ∨ h.object? target = some (.list (.ref b))

variable {target : Value}

lemma turns_refl (hsealed : h.Sealed hidden) : Turns hidden target h h :=
  ⟨hsealed, .refl hidden h, id, fun _ hitems => .inl hitems⟩

/-- Texts are no objects. -/
lemma turns_newText (hsealed : h.Sealed hidden) (content : String) :
    Turns hidden target h (h.newText content).2 where
  sealed := hsealed.newText content
  kept := ⟨Nat.le_refl _, fun _ _ => rfl, fun hobj _ => hobj, fun _ hitems => ⟨_, hitems, rfl⟩⟩
  orderly horderly := ⟨horderly.backed, horderly.unshared⟩
  calm _ hitems := .inl hitems

lemma turns_alloc (hsealed : h.Sealed hidden)
    (hvalues : ∀ v ∈ obj.values, h.Sees hidden v) (hlist : ∀ v, obj ≠ .list v) :
    Turns hidden target h (h.alloc obj).2 where
  sealed := hsealed.alloc hvalues
  kept := kept_alloc hidden h obj
  orderly horderly := horderly.alloc hlist
  calm _ hitems := .inl (get?_alloc_of_get? hitems obj)

/-- A list that keeps its array keeps its items. -/
lemma calm_set (hold : h.get? a = some old) (harray : ∀ items, old = .array items → h.Loose a)
    {l : Nat} {items : Array Value} (hlist : h.get? l = some (.list (.ref b)))
    (hitems : h.get? b = some (.array items)) : (h.set a obj).get? b = some (.array items) := by
  rw [get?_set hold, if_neg, hitems]
  rintro rfl
  exact harray items (by simpa [hold] using hitems) l hlist

lemma turns_init (hsealed : h.Sealed hidden) {owner : String}
    (hold : h.get? a = some (.uninit owner)) (ha : a ∉ hidden)
    (hvalues : ∀ v ∈ obj.values, h.Sees hidden v) (hlist : ∀ v, obj ≠ .list v) :
    Turns hidden target h (h.set a obj) where
  sealed := hsealed.set hold hvalues
  kept := kept_set hold ha rfl (by simp)
  orderly horderly := horderly.set hold hlist (by simp)
  calm hl hitems := .inl (calm_set hold (by simp) hl hitems)

lemma turns_wrap (hsealed : h.Sealed hidden) {owner : String}
    (hold : h.get? a = some (.uninit owner)) (ha : a ∉ hidden) {items : Array Value}
    (hitems : h.get? b = some (.array items)) (hb : b ∉ hidden) (hloose : h.Loose b) :
    Turns hidden target h (h.set a (.list (.ref b))) where
  sealed := hsealed.set hold (by simpa [Obj.values] using ⟨lt_size_of_get? hitems, hb⟩)
  kept := kept_set hold ha rfl (by simp)
  orderly horderly := horderly.wrap hold hitems hloose
  calm hl hitems := .inl (calm_set hold (by simp) hl hitems)

lemma kept_wrapCopy {owner : String} (hold : h.get? a = some (.uninit owner)) (ha : a ∉ hidden)
    (items : Array Value) : Kept hidden h (h.wrapCopy a items) := by
  have waiting : (h.alloc (.array items)).2.get? a = some (.uninit owner) := by
    rw [get?_alloc, if_neg (Nat.ne_of_lt (lt_size_of_get? hold)), hold]
  exact (kept_alloc hidden h _).trans (kept_set waiting ha rfl (by simp))

/-- A list around a copy of what can be seen. -/
lemma Sealed.wrapCopy (hsealed : h.Sealed hidden) {owner : String}
    (hold : h.get? a = some (.uninit owner)) {items : Array Value}
    (hitems : ∀ v ∈ items.toList, h.Sees hidden v) : (h.wrapCopy a items).Sealed hidden := by
  have made : (h.alloc (.array items)).2.Sealed hidden := hsealed.alloc hitems
  refine made.set (get?_alloc_of_get? hold _) ?_
  simpa [Obj.values, size_alloc] using hsealed.fresh

lemma turns_copy (hsealed : h.Sealed hidden) {owner : String}
    (hold : h.get? a = some (.uninit owner)) (ha : a ∉ hidden) {items : Array Value}
    (hitems : ∀ v ∈ items.toList, h.Sees hidden v) :
    Turns hidden target h (h.wrapCopy a items) := by
  have waiting : (h.alloc (.array items)).2.get? a = some (.uninit owner) :=
    get?_alloc_of_get? hold _
  have there : (h.alloc (.array items)).2.get? h.objects.size = some (.array items) := by simp
  have loose : (h.alloc (.array items)).2.Loose h.objects.size := hsealed.loose_alloc (by simp)
  refine ⟨hsealed.wrapCopy hold hitems, kept_wrapCopy hold ha items, fun horderly => ?_,
    fun hl hitems => .inl ?_⟩
  · exact (horderly.alloc (by simp)).wrap waiting there loose
  · exact calm_set waiting (by simp) (get?_alloc_of_get? hl _) (get?_alloc_of_get? hitems _)

/-- What an array holds with one item more can be seen. -/
lemma sees_push (hsealed : h.Sealed hidden) {items : Array Value}
    (hold : h.get? a = some (.array items)) (ha : a ∉ hidden) (hv : h.Sees hidden v) :
    ∀ x ∈ (Obj.array (items.push v)).values, h.Sees hidden x := by
  intro x hx
  simp only [Obj.values, Array.toList_push, List.mem_append, List.mem_singleton] at hx
  rcases hx with hx | rfl
  · exact hsealed.guards a _ hold ha x hx
  · exact hv

lemma turns_push (hsealed : h.Sealed hidden) {items : Array Value}
    (hold : h.get? a = some (.array items)) (ha : a ∉ hidden) (hloose : h.Loose a)
    (hv : h.Sees hidden v) : Turns hidden target h (h.set a (.array (items.push v))) where
  sealed := hsealed.set hold (sees_push hsealed hold ha hv)
  kept := kept_set hold ha rfl fun _ _ => .inl hloose
  orderly horderly := horderly.set hold (by simp) (by simp)
  calm hl hitems := .inl (calm_set hold (fun _ _ => hloose) hl hitems)

/-- What an array holds with one item replaced can be seen. -/
lemma sees_setIfInBounds (hsealed : h.Sealed hidden) {items : Array Value}
    (hold : h.get? a = some (.array items)) (ha : a ∉ hidden) (hv : h.Sees hidden v)
    (place : Nat) :
    ∀ x ∈ (Obj.array (items.setIfInBounds place v)).values, h.Sees hidden x := by
  intro x hx
  rcases List.mem_or_eq_of_mem_set (by simpa [Obj.values] using hx) with hx | rfl
  · exact hsealed.guards a _ hold ha x hx
  · exact hv

/-- **An item of a list is replaced.** -/
lemma turns_assign (hsealed : h.Sealed hidden) {l : Nat}
    (hlist : h.get? l = some (.list (.ref b))) (hl : l ∉ hidden) {items : Array Value}
    (hitems : h.get? b = some (.array items)) (hv : h.Sees hidden v) (place : Nat) :
    Turns hidden (.ref l) h (h.set b (.array (items.setIfInBounds place v))) := by
  have shown : b ∉ hidden := (hsealed.guards l _ hlist hl (.ref b) (by simp [Obj.values]) b rfl).2
  refine ⟨hsealed.set hitems (sees_setIfInBounds hsealed hitems shown hv place),
    kept_set hitems shown rfl fun _ hsame => .inr ⟨_, rfl, by simp [Obj.array.inj hsame]⟩,
    fun horderly => horderly.set hitems (by simp) (by simp), ?_⟩
  intro l' b' items' hlist' hitems'
  by_cases same : b' = b
  · subst same
    exact .inr hlist
  · exact .inl (by rw [get?_set hitems, if_neg same, hitems'])

end Heap

end StackBackend
