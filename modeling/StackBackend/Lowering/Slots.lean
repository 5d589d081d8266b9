/-!
# Local slots

A body keeps its variables, the arrays of its list literals and the arguments of its calls in local
slots.  Each of them is a key, and `Slots` numbers keys in order of first reference, from one, slot
zero being the receiver's.

Slot numbers have sixteen bits.  The number for a new key is made before the key is looked for, so
that `Slots.slot` fails once all numbers are taken, for a key that has a slot as for any other.

- `SlotTree` finds keys by their spelling;
- `Slots` is an allocation: the keys in order, and a tree that knows just these keys;
- `Slots.slot` is the slot of a key, `Slots.enter` the same without a limit.
-/

namespace StackBackend.Lowering

/-- What a local slot holds. -/
inductive SlotKey where
  /-- A variable or parameter. -/
  | var (name : String)
  /-- The array of a list literal, counted from the start of the body. -/
  | listLiteral (number : Nat)
  /-- The arguments of a call to a callee at a nesting depth. -/
  | callArgs (callee : String) (depth : Nat)
deriving DecidableEq, Inhabited

/-- The spelling of a key: the way to it in a tree. -/
def SlotKey.path : SlotKey → List Nat
  | var name => 0 :: name.toList.map Char.toNat
  | listLiteral number => [1, number / 256, number % 256]
  | callArgs callee depth => 2 :: depth :: callee.toList.map Char.toNat

theorem SlotKey.path_inj {key key' : SlotKey} (h : key.path = key'.path) : key = key' := by
  have chars : ∀ {name name' : String},
      name.toList.map Char.toNat = name'.toList.map Char.toNat → name = name' := fun h =>
    String.toList_inj.1 ((List.map_inj_right fun _ _ hc => Char.toNat_inj.1 hc).1 h)
  cases key with
  | var name =>
      cases key' with
      | var name' => rw [chars (List.cons.inj h).2]
      | _ => simp [path] at h
  | listLiteral number =>
      cases key' with
      | listLiteral number' =>
          simp only [path, List.cons.injEq, and_true, true_and] at h
          congr 1
          omega
      | _ => simp [path] at h
  | callArgs callee depth =>
      cases key' with
      | callArgs callee' depth' =>
          simp only [path, List.cons.injEq, true_and] at h
          rw [h.1, chars h.2]
      | _ => simp [path] at h

/-! ## Trees of keys -/

/-- Slots under spellings: the slot of the spelling that ends here, and the branches of those that
go on. -/
inductive SlotTree where
  | node (slot : Option Nat) (branches : List (Nat × SlotTree))
deriving Inhabited

namespace SlotTree

def empty : SlotTree := node none []

/-- The slot under a spelling. -/
def find : SlotTree → List Nat → Option Nat
  | node slot _, [] => slot
  | node _ branches, step :: rest =>
    match branches.lookup step with
    | some branch => branch.find rest
    | none => none

/-- Put a branch in the place of the one that goes on the same way. -/
def graft (step : Nat) (branch : SlotTree) : List (Nat × SlotTree) → List (Nat × SlotTree)
  | [] => [(step, branch)]
  | (other, old) :: rest =>
    if other = step then (step, branch) :: rest else (other, old) :: graft step branch rest

/-- Put a slot under a spelling. -/
def insert (slot : Nat) : SlotTree → List Nat → SlotTree
  | node _ branches, [] => node (some slot) branches
  | node here branches, step :: rest =>
    let branch := ((branches.lookup step).getD empty).insert slot rest
    node here (graft step branch branches)

theorem find_empty (path : List Nat) : empty.find path = none := by
  cases path <;> rfl

theorem lookup_branches (step other : Nat) (branch : SlotTree) (rest : List (Nat × SlotTree)) :
    List.lookup other ((step, branch) :: rest) =
      if other = step then some branch else rest.lookup other := by
  by_cases h : other = step
  · simp [h]
  · have differ : (other == step) = false := beq_eq_false_iff_ne.2 h
    simp [List.lookup_cons, differ, h]

theorem lookup_graft (step other : Nat) (branch : SlotTree) (branches : List (Nat × SlotTree)) :
    (graft step branch branches).lookup other =
      if other = step then some branch else branches.lookup other := by
  induction branches with
  | nil => rw [graft, lookup_branches]
  | cons first rest ih =>
      obtain ⟨label, old⟩ := first
      rw [graft]
      split
      · next hlabel =>
          subst hlabel
          rw [lookup_branches, lookup_branches]
          split <;> rfl
      · next hlabel =>
          rw [lookup_branches, lookup_branches, ih]
          split
          · next h => rw [if_neg (h ▸ hlabel)]
          · rfl

theorem find_insert (slot : Nat) (t : SlotTree) (path other : List Nat) :
    (t.insert slot path).find other = if other = path then some slot else t.find other := by
  induction path generalizing t other with
  | nil =>
      obtain ⟨here, branches⟩ := t
      cases other <;> simp [insert, find]
  | cons step rest ih =>
      obtain ⟨here, branches⟩ := t
      cases other with
      | nil => simp [insert, find]
      | cons way others =>
          simp only [insert, find, lookup_graft]
          by_cases h : way = step
          · subst h
            cases hbranch : branches.lookup way <;> simp [ih, find_empty]
          · simp [h]

end SlotTree

/-! ## Allocations -/

/-- The keys that have a slot. -/
structure Slots where
  /-- The keys, the newest first. -/
  keys : List SlotKey
  /-- Number of slots handed out, the receiver's not counted. -/
  size : Nat
  tree : SlotTree
  counted : size = keys.length
  /-- The tree knows the place of every key in the order of first reference. -/
  located : ∀ key, tree.find key.path = (keys.reverse.idxOf? key).map (· + 1)

/-- The greatest number a slot can have: slot numbers have sixteen bits. -/
def slotLimit : Nat := 65535

namespace Slots

/-- No key has a slot. -/
def empty : Slots where
  keys := []
  size := 0
  tree := .empty
  counted := rfl
  located key := SlotTree.find_empty key.path

instance : Inhabited Slots := ⟨empty⟩

/-- The slot of a key, if it has one. -/
def get? (s : Slots) (key : SlotKey) : Option Nat := s.tree.find key.path

/-- Give the next slot to a key that has none. -/
def append (s : Slots) (key : SlotKey) (new : s.get? key = none) : Slots where
  keys := key :: s.keys
  size := s.size + 1
  tree := s.tree.insert (s.size + 1) key.path
  counted := by rw [s.counted, List.length_cons]
  located other := by
    have missing : s.keys.reverse.idxOf? key = none := by
      simpa [get?, s.located] using new
    simp only [List.idxOf?] at missing
    rw [SlotTree.find_insert, s.located, List.reverse_cons]
    by_cases h : other = key
    · subst h
      simp [s.counted, List.idxOf?, List.findIdx?_append, missing]
    · have hpath : other.path ≠ key.path := fun same => h (SlotKey.path_inj same)
      have hkey : (key == other) = false := beq_eq_false_iff_ne.2 (Ne.symm h)
      simp [hpath, List.idxOf?, List.findIdx?_append, hkey]

/-- The slot of a key, and the allocation with this key in it: a key without a slot gets the
next. -/
def enter (s : Slots) (key : SlotKey) : Nat × Slots :=
  match h : s.get? key with
  | some slot => (slot, s)
  | none => (s.size + 1, s.append key h)

/-- **The slot of a key**, as long as there are numbers left. -/
def slot (s : Slots) (key : SlotKey) : Option (Nat × Slots) :=
  if s.size < slotLimit then some (s.enter key) else none

end Slots

end StackBackend.Lowering
