import StackBackend.Proofs.Lowering.Sequences
import StackBackend.Proofs.Machine.Endless
import StackBackend.Proofs.Meaning.Representation

/-!
# What is seen of a value

An expression that calls nothing and counts nothing changes no variable and no object that is there.
It may make objects: texts, function pointers, and lists with their arrays.  Evaluated again it
makes others, so the value need not be the same; what can be seen of it is.

* `Sight` — what is seen of a value: a value that was there before or is a number or a text, or a
  new list by the sights of its items.  Truth values and function pointers that are computed are not
  told apart;
* `Expr.look` — the sight of an expression, from the variables and the objects that are there;
* `Shows h₀ h lo v sight` — a value in the heap `h` shows a sight taken in the heap `h₀`, and what
  is new in it has addresses from `lo` on.
-/

namespace StackBackend

open Heap Lowering

/-! ## Sights -/

/-- A value without the identity that a text has. -/
def Value.plain : Value → Value
  | .text _ content => .text 0 content
  | v => v

/-- **What is seen of a value.** -/
inductive Sight where
  | value (v : Value)
  | truth
  | pointer
  | list (items : List Sight)

namespace Sight

/-- The items of a list. -/
def items? (h : Heap) : Sight → Option (List Sight)
  | value v => (h.items? v).map fun items => items.toList.map fun item => value item.plain
  | list items => some items
  | truth | pointer => none

/-- The length of a text, or the number of items of a list. -/
def extent? (h : Heap) : Sight → Option Nat
  | value (.text _ content) => some content.length
  | sight => (sight.items? h).map List.length

/-- The item of a list at a place. -/
def item? (h : Heap) (base : Sight) : Sight → Option Sight
  | value (.integer x) => do
    let items ← base.items? h
    if 0 ≤ x.toInt then items[x.toInt.toNat]? else none
  | _ => none

/-- What an operator makes of two operands. -/
def combined (op : BinaryOp) (lhs rhs : Sight) : Option Sight :=
  if op.cond?.isSome then some truth else
    match lhs, rhs with
    | value (.integer x), value (.integer y) =>
      (op.intOp.apply x y).toOption.map fun z => value (.integer z)
    | _, _ => none

/-- What an operator makes of one operand. -/
def changed (op : UnaryOp) (operand : Sight) : Option Sight :=
  match op, operand with
  | .neg, value (.integer x) => some (value (.integer (-x)))
  | .not, _ => some truth
  | _, _ => none

/-- A text without its last character. -/
def chopped : Sight → Option Sight
  | value (.text _ t) => some (value (.text 0 (String.ofList (t.toList.take
      (Site.lastPlace t).toInt.toNat))))
  | _ => none

/-- What goes into a list as an element of a type: a list is copied. -/
def stored (h : Heap) (ty : Ty) (sight : Sight) : Option Sight :=
  if ty.isList then (sight.items? h).map list else some sight

/-- What has items has their number as its extent. -/
lemma extent?_of_items {h : Heap} {sight : Sight} {items : List Sight}
    (hitems : sight.items? h = some items) : sight.extent? h = some items.length := by
  cases sight with
  | value v =>
      cases v with
      | text ident content => simp [items?, Heap.items?, Heap.itemsWithin, Heap.object?] at hitems
      | _ =>
          rw [extent?, hitems, Option.map_some]
          simp
  | list _ =>
      rw [extent?, hitems, Option.map_some]
      simp
  | truth | pointer => simp [items?] at hitems

end Sight

/-- The value that a variable has in its slot. -/
def Lowering.Slots.held (slots : Slots) (locals : Array Value) (name : String) : Value :=
  ((slots.get? (.var name)).bind (locals[·]?)).getD .null

namespace Expr

variable (symbols : SymbolTable) (scope : ScopeId) (held : String → Value) (h : Heap)

mutual

/-- **The sight of an expression**, if it has no effects. -/
def look : Expr → Option Sight
  | int _ x => some (.value (.integer x))
  | bool _ b => some (.value (.boolean b))
  | str _ content => some (.value (.text 0 content))
  | ident _ name =>
    some (if (symbols.functionBinding? scope name).isSome then .pointer
      else .value (held name).plain)
  | fnPtr _ _ => some .pointer
  | list _ elements => (lookIn elements).map .list
  | call _ _ _ => none
  | index _ base places => do
    let base ← base.look
    match ← lookIn places with
    | [place] => base.item? h place
    | _ => none
  | binary _ op lhs rhs => do
    let lhs ← lhs.look
    let rhs ← rhs.look
    lhs.combined op rhs
  | unary _ op operand => operand.look.bind (Sight.changed op)
  | len _ operand => do
    let extent ← operand.look.bind (Sight.extent? h)
    return .value (.integer (Int32.ofNat extent))
  | chop _ operand => operand.look.bind Sight.chopped

/-- The sights of the elements of a list; a list among them is copied. -/
def lookIn : List Expr → Option (List Sight)
  | [] => some []
  | e :: rest => do
    let sight ← e.look
    return (← sight.stored h e.ty) :: (← lookIn rest)

end

end Expr

/-! ## Values that show a sight -/

/-- **A value shows a sight** that was taken in the heap `h₀`. -/
inductive Shows (h₀ h : Heap) (lo : Nat) : Value → Sight → Prop
  | value {v : Value} : h₀.Sees ∅ v → Shows h₀ h lo v (.value v.plain)
  | truth {b : Bool} : Shows h₀ h lo (.boolean b) .truth
  | pointer {a : Nat} {receiver : Value} {name : String} : lo ≤ a →
      h.get? a = some (.closure receiver name) → Shows h₀ h lo (.ref a) .pointer
  | list {l b : Nat} {items : Array Value} {sights : List Sight} : lo ≤ l → lo ≤ b →
      h.get? l = some (.list (.ref b)) → h.get? b = some (.array items) →
      items.size = sights.length →
      (∀ (place : Nat) v sight, items[place]? = some v → sights[place]? = some sight →
        Shows h₀ h lo v sight) →
      Shows h₀ h lo (.ref l) (.list sights)

/-- The items of an array show some sights. -/
structure ShowsAll (h₀ h : Heap) (lo : Nat) (items : Array Value) (sights : List Sight) : Prop where
  size : items.size = sights.length
  shows : ∀ (place : Nat) v sight, items[place]? = some v → sights[place]? = some sight →
    Shows h₀ h lo v sight

section Shows

variable {h₀ h h' : Heap} {lo lo' : Nat} {v : Value} {sight : Sight} {array : Array Value}
  {sights : List Sight}

/-- A sight is shown as long as the new objects in it stay. -/
lemma Shows.transfer (hshows : Shows h₀ h lo v sight)
    (hsame : ∀ a obj, lo ≤ a → h.get? a = some obj → h'.get? a = some obj) (hlo : lo' ≤ lo) :
    Shows h₀ h' lo' v sight := by
  induction hshows with
  | value hsees => exact .value hsees
  | truth => exact .truth
  | pointer ha hobj => exact .pointer (Nat.le_trans hlo ha) (hsame _ _ ha hobj)
  | list hl hb hlist hitems hsize _ ih =>
      exact .list (Nat.le_trans hlo hl) (Nat.le_trans hlo hb) (hsame _ _ hl hlist)
        (hsame _ _ hb hitems) hsize ih

lemma Shows.within (hshows : Shows h₀ h lo v sight) (hwithin : h.Within h') (hlo : lo' ≤ lo) :
    Shows h₀ h' lo' v sight :=
  hshows.transfer (fun a obj _ hobj => hwithin a obj hobj) hlo

lemma ShowsAll.transfer (hshows : ShowsAll h₀ h lo array sights)
    (hsame : ∀ a obj, lo ≤ a → h.get? a = some obj → h'.get? a = some obj) (hlo : lo' ≤ lo) :
    ShowsAll h₀ h' lo' array sights :=
  ⟨hshows.size, fun place v sight hv hsight =>
    (hshows.shows place v sight hv hsight).transfer hsame hlo⟩

lemma ShowsAll.push (hshows : ShowsAll h₀ h lo array sights) (hv : Shows h₀ h lo v sight) :
    ShowsAll h₀ h lo (array.push v) (sights ++ [sight]) := by
  refine ⟨by simp [hshows.size], fun place w other hw hother => ?_⟩
  rw [Array.getElem?_push] at hw
  split at hw
  · next hplace =>
      obtain rfl := Option.some.inj hw
      rw [hplace, hshows.size, List.getElem?_concat_length] at hother
      rw [← Option.some.inj hother]
      exact hv
  · have inside : place < sights.length := by
      rw [← hshows.size]
      exact (Array.getElem?_eq_some_iff.1 hw).1
    rw [List.getElem?_append_left inside] at hother
    exact hshows.shows place w other hw hother

/-- A number shows itself and nothing else. -/
lemma Shows.of_integer {x : Int32} (hshows : Shows h₀ h lo (.integer x) sight) :
    sight = .value (.integer x) := by
  cases hshows
  rfl

lemma Shows.of_text {ident : Nat} {content : String}
    (hshows : Shows h₀ h lo (.text ident content) sight) : sight = .value (.text 0 content) := by
  cases hshows
  rfl

/-- What is seen in a heap is the same object later on. -/
lemma Heap.object?_of_within (hwithin : h₀.Within h) (hv : h₀.Sees ∅ v) :
    h.object? v = h₀.object? v := by
  cases v with
  | ref a =>
      obtain ⟨obj, hobj⟩ : ∃ obj, h₀.get? a = some obj :=
        ⟨_, Array.getElem?_eq_getElem (hv a rfl).1⟩
      rw [object?, object?, hobj, hwithin a obj hobj]
  | _ => rfl

lemma Heap.itemsWithin_of_within (hgrounded : h₀.Guards ∅) (hwithin : h₀.Within h)
    (hv : h₀.Sees ∅ v) (wrappers : Nat) :
    h.itemsWithin wrappers v = h₀.itemsWithin wrappers v := by
  induction wrappers generalizing v with
  | zero => rw [itemsWithin, itemsWithin, object?_of_within hwithin hv]
  | succ wrappers ih =>
      rw [itemsWithin, itemsWithin, object?_of_within hwithin hv]
      split
      · rfl
      · next backing hlist =>
          obtain ⟨a, rfl, ha⟩ := object?_ok hlist
          exact ih (hgrounded a _ ha (by simp) backing (by simp [Obj.values]))
      · rfl

/-- What is seen in a heap has its items there, whatever has been made since. -/
lemma Heap.items?_of_within (hgrounded : h₀.Guards ∅) (hwithin : h₀.Within h)
    (hv : h₀.Sees ∅ v) : h.items? v = h₀.items? v := by
  ext1 items
  constructor
  · intro hitems
    rw [items?, itemsWithin_of_within hgrounded hwithin hv] at hitems
    exact items?_of_itemsWithin hitems
  · intro hitems
    rw [items?, ← itemsWithin_of_within hgrounded hwithin hv] at hitems
    exact items?_of_itemsWithin hitems

/-- **The items of a list that shows a sight show the items of the sight.** -/
lemma Shows.items (hshows : Shows h₀ h lo v sight) (hgrounded : h₀.Guards ∅)
    (hwithin : h₀.Within h) (hitems : h.items? v = some array) :
    ∃ sights, sight.items? h₀ = some sights ∧ ShowsAll h₀ h lo array sights := by
  cases hshows with
  | value hsees =>
      rw [items?_of_within hgrounded hwithin hsees] at hitems
      have plain : v.plain = v := by
        cases v with
        | text ident content => simp [items?, itemsWithin, object?] at hitems
        | _ => rfl
      refine ⟨_, by rw [plain, Sight.items?, hitems, Option.map_some], by simp, ?_⟩
      intro place item sight hitem hsight
      rw [List.getElem?_map, Array.getElem?_toList, hitem, Option.map_some] at hsight
      obtain rfl := Option.some.inj hsight
      have mem : item ∈ array.toList := (Array.mem_of_getElem? hitem).val
      exact .value (sees_itemsWithin hgrounded hsees hitems item mem)
  | truth => simp [items?, itemsWithin, object?] at hitems
  | pointer _ hobj => simp [items?, itemsWithin, object?, hobj] at hitems
  | list _ _ hlist hbacking hsize hall =>
      rw [items?_of_list hlist hbacking] at hitems
      obtain rfl := Option.some.inj hitems
      exact ⟨_, rfl, hsize, hall⟩

/-- **A copy of a list** that was made before it shows the same items. -/
lemma Shows.copy {l : Nat} {owner : String} (hshows : Shows h₀ h lo v sight)
    (hgrounded : h₀.Guards ∅) (hwithin : h₀.Within h) (hitems : h.items? v = some array)
    (hold : h.get? l = some (.uninit owner)) (hlt : l < lo) :
    ∃ sights, sight.items? h₀ = some sights ∧
      Shows h₀ (h.wrapCopy l array) l (.ref l) (.list sights) := by
  obtain ⟨sights, hsights, hall⟩ := hshows.items hgrounded hwithin hitems
  obtain ⟨hlist, harray⟩ := get?_wrapCopy hold array
  have same : ∀ a obj, lo ≤ a → h.get? a = some obj → (h.wrapCopy l array).get? a = some obj := by
    intro a obj ha hobj
    rw [wrapCopy, get?_set (get?_alloc_of_get? hold _), if_neg (by omega)]
    exact get?_alloc_of_get? hobj _
  have moved := hall.transfer same (Nat.le_of_lt hlt)
  exact ⟨sights, hsights, .list (Nat.le_refl _) (Nat.le_of_lt (lt_size_of_get? hold)) hlist harray
    moved.size moved.shows⟩

end Shows

end StackBackend
