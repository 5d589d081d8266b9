import StackBackend.Machine.Native
import Mathlib.Tactic.Lemma

/-!
# Objects on the heap

What making and replacing an object does to the other objects, and what the library finds at an
address.

* `get?_alloc`, `get?_set` — the objects after one is made or replaced;
* `construct_alloc` — an object that is made and then initialized;
* `items?_of_list`, `backing_of_list` — a list and the array behind it;
* `listItems_eq_ok` — what the library takes for the items of a value;
* `wrapCopy`, `perform_listCopy` — a list that gets a copy of the items of another.
-/

namespace StackBackend.Heap

@[simp] lemma get?_alloc (h : Heap) (obj : Obj) (address : Nat) :
    (h.alloc obj).2.get? address =
      if address = h.objects.size then some obj else h.get? address := by
  simp [alloc, get?, Array.getElem?_push]

lemma get?_set {h : Heap} {address : Nat} {old : Obj} (hold : h.get? address = some old) (obj : Obj)
    (other : Nat) :
    (h.set address obj).get? other = if other = address then some obj else h.get? other := by
  obtain ⟨inside, -⟩ := Array.getElem?_eq_some_iff.1 hold
  by_cases same : other = address
  · subst same
    simp [set, get?, inside]
  · simp [set, get?, same, Ne.symm same]

lemma lt_size_of_get? {h : Heap} {address : Nat} {obj : Obj} (hobj : h.get? address = some obj) :
    address < h.objects.size := by
  obtain ⟨inside, -⟩ := Array.getElem?_eq_some_iff.1 hobj
  exact inside

lemma object?_ok {h : Heap} {v : Value} {obj : Obj} (ho : h.object? v = some obj) :
    ∃ a, v = .ref a ∧ h.get? a = some obj := by
  cases v with
  | ref a => exact ⟨a, rfl, ho⟩
  | _ => simp [object?] at ho

lemma size_alloc (h : Heap) (obj : Obj) : (h.alloc obj).2.objects.size = h.objects.size + 1 := by
  simp [alloc]

lemma size_set (h : Heap) (a : Nat) (obj : Obj) : (h.set a obj).objects.size = h.objects.size := by
  simp [set]

/-- There is nothing yet where the next object goes. -/
lemma get?_size (h : Heap) : h.get? h.objects.size = none := by simp [get?]

/-- Objects stay where they are when another is made. -/
lemma get?_alloc_of_get? {h : Heap} {address : Nat} {old : Obj} (hold : h.get? address = some old)
    (obj : Obj) : (h.alloc obj).2.get? address = some old := by
  rw [get?_alloc, if_neg (Nat.ne_of_lt (lt_size_of_get? hold)), hold]

/-- An object that is initialized right away might as well have been made initialized. -/
lemma set_alloc (h : Heap) (obj obj' : Obj) :
    (h.alloc obj).2.set h.objects.size obj' = (h.alloc obj').2 := by
  have replaced : (h.objects.push obj).setIfInBounds h.objects.size obj' = h.objects.push obj' := by
    refine Array.ext_getElem? fun address => ?_
    by_cases last : address = h.objects.size
    · simp [last]
    · simp [Array.getElem?_push, Ne.symm last, last]
  simp [alloc, set, replaced]

/-- A new object is initialized in place. -/
lemma construct_alloc (h : Heap) (owner : String) (obj : Obj) :
    (h.alloc (.uninit owner)).2.construct (.ref h.objects.size) obj = .ok (h.alloc obj).2 := by
  rw [construct, dereference, get?_alloc, if_pos rfl]
  simp only [set_alloc]

lemma construct_of_uninit {h : Heap} {address : Nat} {owner : String}
    (huninit : h.get? address = some (.uninit owner)) (obj : Obj) :
    h.construct (.ref address) obj = .ok (h.set address obj) := by
  rw [construct, dereference, huninit]

/-! ## Items -/

lemma items?_null (h : Heap) : h.items? .null = none := by
  rw [items?, itemsWithin]
  simp [object?]

lemma items?_of_array {h : Heap} {address : Nat} {items : Array Value}
    (hitems : h.get? address = some (.array items)) : h.items? (.ref address) = some items := by
  rw [items?, itemsWithin]
  simp [object?, hitems]

/-- The items of a list are those of the array behind it. -/
lemma items?_of_list {h : Heap} {address array : Nat} {items : Array Value}
    (hlist : h.get? address = some (.list (.ref array)))
    (hitems : h.get? array = some (.array items)) : h.items? (.ref address) = some items := by
  obtain ⟨wrappers, hsize⟩ : ∃ wrappers, h.objects.size = wrappers + 1 :=
    ⟨h.objects.size - 1, by have := lt_size_of_get? hlist; omega⟩
  rw [items?, hsize, itemsWithin]
  simp only [object?, hlist]
  rw [itemsWithin]
  simp [object?, hitems]

/-- Wrappers around an array come to an end. -/
lemma unwrapsWithin_of_itemsWithin {h : Heap} {wrappers : Nat} {v : Value} {items : Array Value}
    (hitems : h.itemsWithin wrappers v = some items) : h.unwrapsWithin wrappers v = true := by
  induction wrappers generalizing v with
  | zero =>
      rw [itemsWithin] at hitems
      rw [unwrapsWithin]
      split
      · next hlist => simp [hlist] at hitems
      · rfl
  | succ wrappers ih =>
      rw [itemsWithin] at hitems
      rw [unwrapsWithin]
      split
      · next hlist => exact ih (by simpa [hlist] using hitems)
      · rfl

lemma listItems_eq_ok {h : Heap} {v : Value} {otherwise : Fault} {items : Array Value} :
    h.listItems v otherwise = .ok items ↔ h.items? v = some items := by
  constructor
  · intro hitems
    rw [listItems] at hitems
    split at hitems
    · split at hitems
      · next found => simpa [found] using hitems
      · simp at hitems
    · simp at hitems
  · intro hitems
    have ends : h.unwraps v = true := unwrapsWithin_of_itemsWithin hitems
    simp [listItems, ends, hitems]

lemma listItems_null (h : Heap) (otherwise : Fault) :
    h.listItems .null otherwise = .error otherwise := by
  have ends : h.unwraps .null = true := by
    rw [unwraps, unwrapsWithin]
    simp [object?]
  simp [listItems, ends, items?_null]

lemma backing_of_list {h : Heap} {address array : Nat} {items : Array Value}
    (hlist : h.get? address = some (.list (.ref array)))
    (hitems : h.get? array = some (.array items)) :
    h.backing (.ref address) = .ok (array, items) := by
  simp [backing, dereference, hlist, hitems]

/-! ## Copies -/

/-- The heap with a list put around a new array. -/
def wrapCopy (h : Heap) (l : Nat) (items : Array Value) : Heap :=
  (h.alloc (.array items)).2.set l (.list (.ref h.objects.size))

lemma size_wrapCopy (h : Heap) (l : Nat) (items : Array Value) :
    (h.wrapCopy l items).objects.size = h.objects.size + 1 := by
  rw [wrapCopy, size_set, size_alloc]

lemma get?_wrapCopy {h : Heap} {a : Nat} {owner : String} (hold : h.get? a = some (.uninit owner))
    (items : Array Value) : (h.wrapCopy a items).get? a = some (.list (.ref h.objects.size)) ∧
      (h.wrapCopy a items).get? h.objects.size = some (.array items) := by
  have there := lt_size_of_get? hold
  have waiting : (h.alloc (.array items)).2.get? a = some (.uninit owner) := by
    rw [get?_alloc, if_neg (Nat.ne_of_lt there), hold]
  rw [wrapCopy, get?_set waiting, if_pos rfl, get?_set waiting, if_neg (Nat.ne_of_gt there)]
  simp

/-- A list that has been made before is put around a copy of some items. -/
lemma perform_listCopy {h : Heap} {a : Nat} {v : Value} {owner : String} {items : Array Value}
    (hold : h.get? a = some (.uninit owner)) (hitems : h.items? v = some items) :
    LibraryMethod.listCopy.perform h (.ref a) [v] = .ok (.done none, h.wrapCopy a items) := by
  have waiting : (h.alloc (.array items)).2.get? a = some (.uninit owner) :=
    get?_alloc_of_get? hold _
  simp only [LibraryMethod.perform, List.getElem?_cons_zero, Option.getD_some,
    listItems_eq_ok.2 hitems, bind, Except.bind, construct_of_uninit waiting]
  rfl

end StackBackend.Heap
