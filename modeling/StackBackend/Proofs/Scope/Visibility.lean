import StackBackend.Proofs.Scope.Ancestors
import Mathlib.Data.Fintype.Card

/-!
# A look-up misses nothing

`lookup` gives up after as many scopes as the table holds.  On a valid table the links end before
that; on a table whose links run in a circle they never end, and it has to be shown that nothing is
left to be found.

**The first scope that binds a name** on the way outward (`BindsFirst`) is found by a walk that gets
as far (`walk_eq_some_iff`).

**It is never far.**  The scopes up to it are all different: if one came twice, the way from its
first visit would lead to the same end sooner.  So there are no more of them than the table holds
(`BindsFirst.lt_size`), whatever its links look like.
-/

namespace StackBackend.SymbolTable

variable {t : SymbolTable} {id scope : ScopeId} {name : String} {b : Binding} {m n : Nat}

/-! ## The way outward -/

/-- Links after links. -/
lemma ancestor?_add (t : SymbolTable) (m n : Nat) (id : ScopeId) :
    t.ancestor? (m + n) id = (t.ancestor? m id).bind (t.ancestor? n) := by
  induction m generalizing id with
  | zero => simp [ancestor?]
  | succ m ih =>
      rw [Nat.add_right_comm, ancestor?, ancestor?]
      cases t.parent? id with
      | none => simp
      | some parent => simp [ih]

/-- A scope with a link is in the table. -/
lemma has_of_parent? {parent : ScopeId} (h : t.parent? id = some parent) : t.has id = true := by
  obtain ⟨own, hown, -⟩ := parent?_eq_some h
  simp [has, hown]

/-- A scope that binds a name is in the table. -/
lemma has_of_lookupLocal (h : t.lookupLocal id name = some b) : t.has id = true := by
  rw [lookupLocal] at h
  split at h
  · next own hown => simp [has, hown]
  · simp at h

/-! ## The first scope that binds a name -/

/-- **The scope that `n` links lead to is the first to bind a name**, on the way outward. -/
def BindsFirst (t : SymbolTable) (id : ScopeId) (name : String) (n : Nat) (b : Binding) : Prop :=
  (∃ scope, t.ancestor? n id = some scope ∧ t.lookupLocal scope name = some b) ∧
    ∀ m < n, ∀ scope, t.ancestor? m id = some scope → t.lookupLocal scope name = none

lemma bindsFirst_zero : t.BindsFirst id name 0 b ↔ t.lookupLocal id name = some b := by
  simp [BindsFirst, ancestor?]

/-- Further out than the scope itself is from its parent on. -/
lemma bindsFirst_succ : t.BindsFirst id name (n + 1) b ↔
    t.lookupLocal id name = none ∧ ∃ parent, t.parent? id = some parent ∧
      t.BindsFirst parent name n b := by
  constructor
  · intro h
    obtain ⟨⟨scope, hscope, hbound⟩, hfirst⟩ := h
    rw [ancestor?, Option.bind_eq_some_iff] at hscope
    obtain ⟨parent, hparent, hscope⟩ := hscope
    refine ⟨hfirst 0 (by omega) id rfl, parent, hparent, ⟨scope, hscope, hbound⟩, ?_⟩
    intro m hm other hother
    refine hfirst (m + 1) (by omega) other ?_
    simp [ancestor?, hparent, hother]
  · intro h
    obtain ⟨hnone, parent, hparent, ⟨scope, hscope, hbound⟩, hfirst⟩ := h
    refine ⟨⟨scope, by simp [ancestor?, hparent, hscope], hbound⟩, ?_⟩
    intro m hm other hother
    cases m with
    | zero =>
        have same : id = other := by simpa [ancestor?] using hother
        exact same ▸ hnone
    | succ m =>
        refine hfirst m (by omega) other ?_
        simpa [ancestor?, hparent] using hother

/-- **A walk finds the first scope that binds a name**, if it gets as far. -/
lemma walk_eq_some_iff {steps : Nat} :
    t.walk name steps id = some b ↔ ∃ n < steps, t.BindsFirst id name n b := by
  induction steps generalizing id with
  | zero => simp [walk]
  | succ steps ih =>
      rw [Nat.exists_lt_succ_left, bindsFirst_zero, walk]
      cases hlocal : t.lookupLocal id name with
      | some own => simp [bindsFirst_succ, hlocal]
      | none =>
          cases hparent : t.parent? id with
          | none => simp [bindsFirst_succ, hparent]
          | some parent => simp [bindsFirst_succ, hlocal, hparent, ih]

/-- If a name is bound on the way outward, some scope is the first to bind it. -/
lemma exists_bindsFirst (hscope : t.ancestor? n id = some scope)
    (hbound : t.lookupLocal scope name = some b) : ∃ m b', t.BindsFirst id name m b' := by
  induction n generalizing id with
  | zero =>
      have same : id = scope := by simpa [ancestor?] using hscope
      exact ⟨0, b, bindsFirst_zero.2 (same ▸ hbound)⟩
  | succ n ih =>
      rw [ancestor?, Option.bind_eq_some_iff] at hscope
      obtain ⟨parent, hparent, hrest⟩ := hscope
      cases hlocal : t.lookupLocal id name with
      | some own => exact ⟨0, own, bindsFirst_zero.2 hlocal⟩
      | none =>
          obtain ⟨m, b', hfirst⟩ := ih hrest
          exact ⟨m + 1, b', bindsFirst_succ.2 ⟨hlocal, parent, hparent, hfirst⟩⟩

/-! ## How far it is -/

namespace BindsFirst

/-- All the scopes up to the first that binds a name are in the table. -/
lemma exists_ancestor? (h : t.BindsFirst id name n b) (hm : m ≤ n) :
    ∃ scope, t.ancestor? m id = some scope ∧ t.has scope = true := by
  obtain ⟨⟨last, hlast, hbound⟩, -⟩ := h
  have split : n = m + (n - m) := by omega
  rw [split, ancestor?_add, Option.bind_eq_some_iff] at hlast
  obtain ⟨scope, hscope, hrest⟩ := hlast
  refine ⟨scope, hscope, ?_⟩
  -- a scope on the way has a link of its own, the last one binds the name
  cases hk : n - m with
  | zero =>
      have same : scope = last := by simpa [hk, ancestor?] using hrest
      exact same ▸ has_of_lookupLocal hbound
  | succ k =>
      rw [hk, ancestor?, Option.bind_eq_some_iff] at hrest
      obtain ⟨parent, hparent, -⟩ := hrest
      exact has_of_parent? hparent

/-- **No scope comes twice** on the way to the first that binds a name. -/
lemma ancestor?_ne (h : t.BindsFirst id name n b) {i j : Nat} (hij : i < j) (hj : j ≤ n) :
    t.ancestor? i id ≠ t.ancestor? j id := by
  intro same
  obtain ⟨⟨last, hlast, hbound⟩, hfirst⟩ := h
  have split : n = j + (n - j) := by omega
  have sooner : t.ancestor? (i + (n - j)) id = some last := by
    rw [ancestor?_add, same, ← ancestor?_add, ← split]
    exact hlast
  have unbound := hfirst (i + (n - j)) (by omega) last sooner
  simp [hbound] at unbound

/-- **The first scope that binds a name is closer than the table is large.** -/
lemma lt_size (h : t.BindsFirst id name n b) : n < t.size := by
  choose way hway hhas using fun m : Fin (n + 1) => h.exists_ancestor? (Nat.le_of_lt_succ m.isLt)
  let place (m : Fin (n + 1)) : Fin t.size := ⟨(way m).toNat, has_iff.1 (hhas m)⟩
  have apart : ∀ i j : Fin (n + 1), i < j → way i ≠ way j := by
    intro i j hij same
    refine h.ancestor?_ne hij (Nat.le_of_lt_succ j.isLt) ?_
    rw [hway i, hway j, same]
  have injective : Function.Injective place := by
    intro i j hplace
    have same : way i = way j := by
      rw [← ofNat_toNat (way i), ← ofNat_toNat (way j)]
      exact congrArg ScopeId.ofNat (Fin.mk.inj hplace)
    by_contra hne
    rcases lt_or_gt_of_ne hne with hlt | hlt
    · exact apart i j hlt same
    · exact apart j i hlt same.symm
  have counted := Fintype.card_le_of_injective place injective
  rwa [Fintype.card_fin, Fintype.card_fin] at counted

end BindsFirst

/-! ## Look-up -/

/-- **A look-up finds what there is to find**, on every table, valid or not.  It answers with what
the first scope on the way outward binds the name to, and with nothing exactly when no scope on the
way binds it; a walk through more scopes than the table holds would find the same. -/
theorem lookup_finds_first (t : SymbolTable) (id : ScopeId) (name : String) :
    (∀ b, t.lookup id name = some b ↔ ∃ n, t.BindsFirst id name n b) ∧
      (t.lookup id name = none ↔
        ∀ n scope, t.ancestor? n id = some scope → t.lookupLocal scope name = none) ∧
      ∀ more, t.walk name (t.size + more) id = t.lookup id name := by
  have found : ∀ b, t.lookup id name = some b ↔ ∃ n, t.BindsFirst id name n b := by
    intro b
    rw [lookup, walk_eq_some_iff]
    constructor
    · rintro ⟨n, -, hfirst⟩
      exact ⟨n, hfirst⟩
    · rintro ⟨n, hfirst⟩
      exact ⟨n, hfirst.lt_size, hfirst⟩
  refine ⟨found, ?_, ?_⟩
  · constructor
    · intro hnone n scope hscope
      by_contra hbound
      obtain ⟨b, hb⟩ := Option.ne_none_iff_exists'.1 hbound
      obtain ⟨m, b', hfirst⟩ := exists_bindsFirst hscope hb
      have := (found b').2 ⟨m, hfirst⟩
      simp [hnone] at this
    · intro hunbound
      by_contra hsome
      obtain ⟨b, hb⟩ := Option.ne_none_iff_exists'.1 hsome
      obtain ⟨n, ⟨scope, hscope, hbound⟩, -⟩ := (found b).1 hb
      simp [hunbound n scope hscope] at hbound
  · intro more
    ext b
    rw [found, walk_eq_some_iff]
    constructor
    · rintro ⟨n, -, hfirst⟩
      exact ⟨n, hfirst⟩
    · rintro ⟨n, hfirst⟩
      have := hfirst.lt_size
      exact ⟨n, by omega, hfirst⟩

/-- Two scopes that link to each other and a third that links to them: the name is bound in the last
scope that a walk of three gets to. -/
example :
    let t : SymbolTable := ⟨[{ parent := some ⟨1⟩ },
      { parent := some ⟨0⟩, bindings := .ofList [("x", .var ⟨"x", .int⟩)] },
      { parent := some ⟨0⟩ }]⟩
    t.lookup ⟨2⟩ "x" = some (.var ⟨"x", .int⟩) ∧ t.walk "x" 2 ⟨2⟩ = none := by
  decide

end StackBackend.SymbolTable
