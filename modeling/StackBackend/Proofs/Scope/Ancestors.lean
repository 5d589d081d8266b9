import StackBackend.Scope.Table
import Mathlib.Tactic.Lemma

/-!
# Where the links of a scope lead

A look-up walks outward along the links of a table.  `ancestor?` is the scope that so many links
lead to, and a scope is rooted in another when the links from the first end at the second.

**Validity is about single links.**  `validate` compares each link with the place it is found at
(`lt_of_parent?`), which is why the links from a scope end, after no more of them than its place
(`exists_rooted`), and why a look-up gets to the end (`walk_of_ancestor?`).

**It does not make the global scope the only root.**  A later scope may do without a link, and then
its links end at itself (`twoRoots_not_rooted`).  Every scope is rooted in the global one exactly
when only the global one has no link (`rooted_global_iff`).
-/

namespace StackBackend.SymbolTable

/-! ## Links -/

/-- The scope that so many links lead to, if there are as many. -/
def ancestor? (t : SymbolTable) : Nat → ScopeId → Option ScopeId
  | 0, id => some id
  | n + 1, id => (t.parent? id).bind (t.ancestor? n)

/-- **The links from one scope end at another.** -/
def Rooted (t : SymbolTable) (id root : ScopeId) : Prop :=
  ∃ n, t.ancestor? n id = some root ∧ t.parent? root = none

variable {t : SymbolTable} {id parent root : ScopeId}

/-- A scope without a link is rooted in itself alone. -/
lemma Rooted.eq_of_parent? (h : t.Rooted id root) (hid : t.parent? id = none) : root = id := by
  obtain ⟨n, hn, -⟩ := h
  cases n with
  | zero => simpa [ancestor?, eq_comm] using hn
  | succ n => simp [ancestor?, hid] at hn

/-- Links end in one place only. -/
lemma Rooted.unique {other : ScopeId} (h : t.Rooted id root) (h' : t.Rooted id other) :
    root = other := by
  obtain ⟨n, hn, hnone⟩ := h
  induction n generalizing id with
  | zero =>
      obtain rfl : id = root := by simpa [ancestor?] using hn
      exact (h'.eq_of_parent? hnone).symm
  | succ n ih =>
      rw [ancestor?, Option.bind_eq_some_iff] at hn
      obtain ⟨parent, hparent, hn⟩ := hn
      obtain ⟨m, hm, hmnone⟩ := h'
      cases m with
      | zero =>
          obtain rfl : id = other := by simpa [ancestor?] using hm
          simp [hparent] at hmnone
      | succ m =>
          rw [ancestor?, hparent] at hm
          exact ih ⟨m, hm, hmnone⟩ hn

/-! ## What validity says about links -/

lemma has_iff : t.has id = true ↔ id.toNat < t.size := by
  simp [has, scope?, size]

lemma ofNat_toNat (id : ScopeId) : ScopeId.ofNat id.toNat = id := by
  cases id
  simp [ScopeId.ofNat, ScopeId.toNat]

lemma firstBadParent?_eq_none {scopes : List Scope} {place : Nat}
    (h : firstBadParent? place scopes = none) {i : Nat} {scope : Scope}
    (hi : scopes[i]? = some scope) (hparent : scope.parent = some parent) :
    parent.index < (ScopeId.ofNat (place + i)).index := by
  induction scopes generalizing place i with
  | nil => simp at hi
  | cons first rest ih =>
      have later : firstBadParent? (place + 1) rest = none := by
        rw [firstBadParent?] at h
        split at h
        · split at h
          · simp at h
          · exact h
        · exact h
      cases i with
      | zero =>
          obtain rfl : first = scope := by simpa using hi
          rw [firstBadParent?, hparent] at h
          simp only at h
          split at h
          · simp at h
          · next hle => exact UInt32.not_le.1 hle
      | succ i =>
          have := ih later (i := i) (by simpa using hi)
          rwa [Nat.add_right_comm] at this

/-- **A link of a valid table leads to an earlier scope**, and the table has it. -/
lemma toNat_lt_of_link (h : t.validate = .ok ()) {scope : Scope} (hscope : t.scope? id = some scope)
    (hparent : scope.parent = some parent) : parent.toNat < id.toNat := by
  have checked : firstBadParent? 0 t.scopes = none := by
    rw [validate] at h
    split at h
    · simp at h
    · split at h
      · simp at h
      · assumption
  have := firstBadParent?_eq_none checked hscope hparent
  rw [Nat.zero_add, ofNat_toNat] at this
  exact UInt32.lt_iff_toNat_lt.1 this

lemma parent?_eq_some (h : t.parent? id = some parent) :
    ∃ scope, t.scope? id = some scope ∧ scope.parent = some parent ∧ t.has parent = true := by
  rw [parent?] at h
  split at h
  · next scope hscope =>
      rw [Option.filter_eq_some_iff] at h
      exact ⟨scope, hscope, h⟩
  · simp at h

lemma lt_of_parent? (h : t.validate = .ok ()) (hparent : t.parent? id = some parent) :
    parent.toNat < id.toNat := by
  obtain ⟨scope, hscope, hlink, -⟩ := parent?_eq_some hparent
  exact toNat_lt_of_link h hscope hlink

/-- **The links from a scope of a valid table end**, after at most as many as its place. -/
lemma exists_rooted (h : t.validate = .ok ()) (hid : t.has id = true) :
    ∃ n root, n ≤ id.toNat ∧ t.ancestor? n id = some root ∧ t.parent? root = none ∧
      t.has root = true := by
  -- each link leads to an earlier place
  induction hplace : id.toNat using Nat.strongRecOn generalizing id with
  | ind place ih =>
      cases hparent : t.parent? id with
      | none => exact ⟨0, id, Nat.zero_le _, rfl, hparent, hid⟩
      | some parent =>
          have hlt := lt_of_parent? h hparent
          obtain ⟨-, -, -, hhas⟩ := parent?_eq_some hparent
          obtain ⟨n, root, hn, hroot, hnone, hlast⟩ := ih parent.toNat (hplace ▸ hlt) hhas rfl
          refine ⟨n + 1, root, by omega, ?_, hnone, hlast⟩
          rw [ancestor?, hparent]
          exact hroot

/-! ## Look-up along links -/

/-- A walk that is long enough finds a name that is bound on its way. -/
lemma walk_of_ancestor? {name : String} {n steps : Nat} (hn : t.ancestor? n id = some root)
    (hlt : n < steps) (hbound : (t.lookupLocal root name).isSome = true) :
    ∃ k scope binding, t.walk name steps id = some binding ∧ k ≤ n ∧
      t.ancestor? k id = some scope ∧ t.lookupLocal scope name = some binding := by
  induction n generalizing id steps with
  | zero =>
      obtain ⟨steps, rfl⟩ : ∃ s, steps = s + 1 := ⟨steps - 1, by omega⟩
      obtain rfl : id = root := by simpa [ancestor?] using hn
      obtain ⟨binding, hbinding⟩ := Option.isSome_iff_exists.1 hbound
      exact ⟨0, id, binding, by simp [walk, hbinding], Nat.le_refl 0, rfl, hbinding⟩
  | succ n ih =>
      obtain ⟨steps, rfl⟩ : ∃ s, steps = s + 1 := ⟨steps - 1, by omega⟩
      rw [ancestor?, Option.bind_eq_some_iff] at hn
      obtain ⟨parent, hparent, hn⟩ := hn
      cases hlocal : t.lookupLocal id name with
      | some binding =>
          exact ⟨0, id, binding, by simp [walk, hlocal], Nat.zero_le _, rfl, hlocal⟩
      | none =>
          obtain ⟨k, scope, binding, hwalk, hk, hscope, hbinding⟩ :=
            ih hn (Nat.lt_of_succ_lt_succ hlt)
          refine ⟨k + 1, scope, binding,
            by simp [walk, hlocal, hparent, hwalk], by omega, ?_, hbinding⟩
          rw [ancestor?, hparent]
          exact hscope

/-! ## Roots -/

/-- A name is seen from a scope: a look-up answers with what a scope on the way outward binds it to.
-/
def Sees (t : SymbolTable) (id : ScopeId) (name : String) : Prop :=
  ∃ k scope binding, t.lookup id name = some binding ∧ t.ancestor? k id = some scope ∧
    t.lookupLocal scope name = some binding

lemma sees_of_rooted (h : t.validate = .ok ()) (hid : t.has id = true) (hroot : t.Rooted id root)
    {name : String} (hbound : (t.lookupLocal root name).isSome = true) : t.Sees id name := by
  obtain ⟨n, last, hn, hlast, hnone, -⟩ := exists_rooted h hid
  obtain rfl : last = root := Rooted.unique ⟨n, hlast, hnone⟩ hroot
  obtain ⟨k, scope, binding, hwalk, -, hscope, hbinding⟩ :=
    walk_of_ancestor? hlast (Nat.lt_of_le_of_lt hn (has_iff.1 hid)) hbound
  exact ⟨k, scope, binding, hwalk, hscope, hbinding⟩

/-- **When a valid table is rooted at the global scope.**  The links from each scope end, and from
there every name is seen that the last scope binds.  They all end at the global scope exactly when
no other scope is without a link, and then every global name is seen from everywhere. -/
theorem rooted_global_iff (h : t.validate = .ok ()) :
    (∀ id, t.has id = true → ∃ root, t.Rooted id root ∧
        ∀ name, (t.lookupLocal root name).isSome = true → t.Sees id name) ∧
      ((∀ id, t.has id = true → t.Rooted id .global) ↔
        ∀ id, t.has id = true → t.parent? id = none → id = .global) ∧
      ((∀ id, t.has id = true → t.parent? id = none → id = .global) → ∀ id, t.has id = true →
        ∀ name, (t.lookupLocal .global name).isSome = true → t.Sees id name) := by
  have unique : (∀ id, t.has id = true → t.Rooted id .global) ↔
      ∀ id, t.has id = true → t.parent? id = none → id = .global := by
    constructor
    · intro hrooted id hid hnone
      exact ((hrooted id hid).eq_of_parent? hnone).symm
    · intro hlinked id hid
      obtain ⟨n, root, -, hroot, hnone, hhas⟩ := exists_rooted h hid
      obtain rfl := hlinked root hhas hnone
      exact ⟨n, hroot, hnone⟩
  refine ⟨fun id hid => ?_, unique, fun hlinked id hid name hbound => ?_⟩
  · obtain ⟨n, root, -, hroot, hnone, -⟩ := exists_rooted h hid
    exact ⟨root, ⟨n, hroot, hnone⟩, fun name => sees_of_rooted h hid ⟨n, hroot, hnone⟩⟩
  · exact sees_of_rooted h hid (unique.2 hlinked id hid) hbound

/-- A block in a function in the global scope, which binds `g`. -/
def nestedScopes : SymbolTable :=
  ⟨[{ bindings := .ofList [("g", .var ⟨"g", .int⟩)] }, { parent := some ⟨0⟩ },
    { parent := some ⟨1⟩ }]⟩

theorem rooted_nestedScopes :
    nestedScopes.validate = .ok () ∧ nestedScopes.has ⟨2⟩ = true ∧
      nestedScopes.Rooted ⟨2⟩ .global ∧ nestedScopes.Sees ⟨2⟩ "g" := by
  have valid : nestedScopes.validate = .ok () := rfl
  have linked : ∀ id, nestedScopes.has id = true → nestedScopes.parent? id = none →
      id = .global := by
    intro id hid hnone
    have hlt : id.toNat < 3 := has_iff.1 hid
    rw [← ofNat_toNat id] at hnone ⊢
    generalize id.toNat = place at hlt hnone
    match place with
    | 0 => rfl
    | 1 | 2 => exact absurd hnone (by decide)
  obtain ⟨-, unique, seen⟩ := rooted_global_iff valid
  exact ⟨valid, by decide, unique.2 linked ⟨2⟩ (by decide),
    seen linked ⟨2⟩ (by decide) "g" (by decide)⟩

/-- A global scope, which binds `g`, and a second scope that links to nothing. -/
def twoRoots : SymbolTable :=
  ⟨[{ bindings := .ofList [("g", .var ⟨"g", .int⟩)] }, {}]⟩

/-- **A valid table need not be rooted at the global scope**, and a global name need not be seen. -/
theorem twoRoots_not_rooted :
    twoRoots.validate = .ok () ∧ twoRoots.has ⟨1⟩ = true ∧ ¬ twoRoots.Rooted ⟨1⟩ .global ∧
      (twoRoots.lookupLocal .global "g").isSome = true ∧ twoRoots.lookup ⟨1⟩ "g" = none := by
  refine ⟨rfl, by decide, fun hrooted => ?_, by decide, by decide⟩
  have itself : ScopeId.global = ⟨1⟩ := hrooted.eq_of_parent? (by decide)
  exact absurd itself (by decide)

end StackBackend.SymbolTable
