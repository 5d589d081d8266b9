import StackBackend.Proofs.Lowering.Shape.Statement

/-!
# Slots stay where they are

Lowering hands out slots as keys are first met, and never takes one back.  So code that was emitted
early and code that was emitted late agree on where a variable is, and the slots at the end of a
body speak for all of it.

* `Slots.Within` — one allocation extends another;
* `get?_of_within`, `get?_inj` — a key keeps its slot, and no two keys share one;
* `keys_enter`, `get?_eq_iff_getElem?` — keys are numbered in the order they come;
* `ExprCode.within`, `StmtCode.within`, `BlockCode.within` — emitting code only extends the
  allocation, and never counts list literals down.
-/

namespace StackBackend.Lowering

/-! ## Allocations -/

namespace Slots

/-- Every key of `a` has the same slot in `b`. -/
def Within (a b : Slots) : Prop := a.keys <:+ b.keys

lemma Within.refl (a : Slots) : a.Within a := List.suffix_rfl

lemma Within.trans {a b c : Slots} (h : a.Within b) (h' : b.Within c) : a.Within c :=
  List.IsSuffix.trans h h'

/-- An allocation that extends another has as many slots at least. -/
lemma Within.size_le {a b : Slots} (h : a.Within b) : a.size ≤ b.size := by
  rw [a.counted, b.counted]
  exact h.length_le

lemma get?_eq_some {s : Slots} {key : SlotKey} {slot : Nat} (h : s.get? key = some slot) :
    ∃ place, slot = place + 1 ∧ s.keys.reverse.idxOf? key = some place := by
  rw [get?, s.located] at h
  obtain ⟨place, hplace, rfl⟩ := Option.map_eq_some_iff.1 h
  exact ⟨place, rfl, hplace⟩

lemma get?_of_within {a b : Slots} (h : a.Within b) {key : SlotKey} {slot : Nat}
    (hslot : a.get? key = some slot) : b.get? key = some slot := by
  obtain ⟨place, rfl, hplace⟩ := get?_eq_some hslot
  obtain ⟨newer, hnewer⟩ := h
  have found : b.keys.reverse.idxOf? key = some place := by
    rw [← hnewer, List.reverse_append, List.idxOf?, List.findIdx?_append]
    simp only [List.idxOf?] at hplace
    simp [hplace]
  rw [get?, b.located, found]
  rfl

/-- No two keys share a slot. -/
lemma get?_inj {s : Slots} {key key' : SlotKey} {slot : Nat} (h : s.get? key = some slot)
    (h' : s.get? key' = some slot) : key = key' := by
  obtain ⟨place, rfl, hplace⟩ := get?_eq_some h
  obtain ⟨place', hsame, hplace'⟩ := get?_eq_some h'
  obtain rfl : place = place' := by omega
  rw [List.idxOf?, List.findIdx?_eq_some_iff_getElem] at hplace hplace'
  obtain ⟨_, hkey, _⟩ := hplace
  obtain ⟨_, hkey', _⟩ := hplace'
  rw [← beq_iff_eq.1 hkey, ← beq_iff_eq.1 hkey']

lemma within_enter (s : Slots) (key : SlotKey) : s.Within (s.enter key).2 := by
  rw [enter]
  split
  · exact .refl s
  · exact List.suffix_cons ..

lemma get?_append (s : Slots) (key : SlotKey) (new : s.get? key = none) (other : SlotKey) :
    (s.append key new).get? other = if other = key then some (s.size + 1) else s.get? other := by
  rw [get?, append, SlotTree.find_insert]
  by_cases same : other = key
  · simp [same]
  · rw [if_neg same, if_neg fun hpath => same (SlotKey.path_inj hpath)]
    rfl

lemma get?_enter (s : Slots) (key : SlotKey) : (s.enter key).2.get? key = some (s.enter key).1 := by
  rw [enter]
  split
  · next h => exact h
  · next h => simp [get?_append]

/-- A reference adds its key at the end, unless the key is there. -/
lemma keys_enter (s : Slots) (key : SlotKey) :
    (s.enter key).2.keys.reverse = s.keys.reverse ++ if key ∈ s.keys then [] else [key] := by
  have known : (s.get? key).isSome = true ↔ key ∈ s.keys := by
    rw [get?, s.located, Option.isSome_map, List.isSome_idxOf?, List.mem_reverse]
  rw [enter]
  split
  · next slot hslot => simp [← known, hslot]
  · next hslot => simp [← known, hslot, append]

lemma enter_keys (s : Slots) (key : SlotKey) :
    (s.enter key).2.keys = if key ∈ s.keys then s.keys else key :: s.keys := by
  have entered := congrArg List.reverse (s.keys_enter key)
  rw [List.reverse_append, List.reverse_reverse, List.reverse_reverse] at entered
  rw [entered]
  split <;> rfl

/-- A key has the number of its place. -/
lemma get?_eq_iff_getElem? {s : Slots} (h : s.keys.reverse.Nodup) {key : SlotKey} {place : Nat} :
    s.get? key = some (place + 1) ↔ s.keys.reverse[place]? = some key := by
  simp only [get?, s.located, Option.map_eq_some_iff, Nat.add_right_cancel_iff, exists_eq_right,
    List.getElem?_eq_some_iff]
  constructor
  · intro hplace
    obtain ⟨hlt, hkey, -⟩ := List.idxOf?_eq_some_iff.1 hplace
    exact ⟨hlt, hkey⟩
  · rintro ⟨hlt, rfl⟩
    refine List.idxOf?_eq_some_iff.2 ⟨hlt, rfl, fun other hother hsame => ?_⟩
    exact Nat.ne_of_lt hother ((List.getElem_inj h).1 hsame)

lemma slot_eq_some {s s' : Slots} {key : SlotKey} {slot : Nat} :
    s.slot key = some (slot, s') ↔ s.size < slotLimit ∧ s.enter key = (slot, s') := by
  rw [Slots.slot]
  split
  · next room => simp [room]
  · next full => simp [full]

end Slots

/-! ## Supplies -/

namespace Supply

/-- `u` is what is left of `t` after some code was emitted. -/
structure Within (t u : Supply) : Prop where
  slots : t.slots.Within u.slots
  literals : t.literals ≤ u.literals

lemma Within.refl (t : Supply) : t.Within t := ⟨.refl _, Nat.le_refl _⟩

lemma Within.trans {t u v : Supply} (h : t.Within u) (h' : u.Within v) : t.Within v :=
  ⟨h.slots.trans h'.slots, Nat.le_trans h.literals h'.literals⟩

lemma within_withSlot (t : Supply) (key : SlotKey) : t.Within (t.withSlot key) :=
  ⟨t.slots.within_enter key, Nat.le_refl _⟩

lemma within_withLabels (t : Supply) : t.Within t.withLabels := ⟨.refl _, Nat.le_refl _⟩

lemma within_withLiteral (t : Supply) : t.Within t.withLiteral :=
  ⟨t.slots.within_enter _, Nat.le_succ _⟩

/-- The slot a key was given is its slot in every later allocation. -/
lemma get?_slotOf {t : Supply} {key : SlotKey} {slots : Slots}
    (h : (t.withSlot key).slots.Within slots) : slots.get? key = some (t.slotOf key) :=
  Slots.get?_of_within h (t.slots.get?_enter key)

lemma get?_literal {t : Supply} {slots : Slots} (h : t.withLiteral.slots.Within slots) :
    slots.get? (.listLiteral t.literals) = some (t.slotOf (.listLiteral t.literals)) :=
  Slots.get?_of_within h (t.slots.get?_enter _)

end Supply

/-! ## Emitted code -/

lemma LeafCode.within {env : Env} {scope : ScopeId} {t u : Supply} {e : Expr}
    {code : List Instruction} (h : LeafCode env scope t e code u) : t.Within u := by
  cases h with
  | int | bool | str | fn _ | pointer => exact .refl t
  | var _ _ => exact t.within_withSlot _

lemma UnaryCode.within {t u : Supply} {e operand : Expr} {last : List Instruction}
    (h : UnaryCode t e operand last u) : t.Within u := by
  cases h with
  | neg _ | not _ | lenText _ | lenList _ | chop _ => exact .refl t
  | count _ _ _ _ => exact t.within_withSlot _

lemma BinaryCode.within {t u : Supply} {e lhs rhs : Expr} {middle last : List Instruction}
    (h : BinaryCode t e lhs rhs middle last u) : t.Within u := by
  cases h with
  | arith _ _ _ | index _ _ => exact .refl t
  | scalar _ _ | text _ _ | identity _ _ => exact t.within_withLabels

lemma CalleeCode.within {env : Env} {scope : ScopeId} {t u : Supply} {name : String}
    {code : List Instruction} (h : CalleeCode env scope t name code u) : t.Within u := by
  cases h with
  | fn _ => exact .refl t
  | var _ _ => exact t.within_withSlot _

mutual

theorem ExprCode.within {env : Env} {scope : ScopeId} {depth : Nat} {t u : Supply} {e : Expr}
    {code : List Instruction} (h : ExprCode env scope depth t e code u) : t.Within u := by
  match h with
  | .leaf hleaf => exact hleaf.within
  | .unary _ hoperand hcode => exact hoperand.within.trans hcode.within
  | .binary _ hlhs _ hrhs hcode => exact (hlhs.within.trans hrhs.within).trans hcode.within
  | .list _ helements => exact t.within_withLiteral.trans helements.within
  | .call hfirst _ hargs =>
      exact (hfirst.within.trans (Supply.within_withSlot _ _)).trans hargs.within

theorem ElementsCode.within {env : Env} {scope : ScopeId} {depth slot : Nat} {t u : Supply}
    {es : List Expr} {code : List Instruction}
    (h : ElementsCode env scope depth slot t es code u) : t.Within u := by
  match h with
  | .nil => exact .refl t
  | .cons _ he hrest => exact he.within.trans hrest.within

end

lemma ValueCode.within {env : Env} {scope : ScopeId} {depth : Nat} {t u : Supply} {e : Expr}
    {code : List Instruction} (h : ValueCode env scope depth t e code u) : t.Within u :=
  h.2.within

lemma PlainCode.within {env : Env} {depth : Nat} {loop : Option LoopLabels} {scope : ScopeId}
    {t u : Supply} {stmt : Stmt} {code : List Instruction}
    (h : PlainCode env depth loop scope t stmt code u) : t.Within u := by
  cases h with
  | assign _ _ hvalue => exact (t.within_withSlot _).trans hvalue.within
  | assignElement _ _ _ _ hindex hvalue =>
      exact ((t.within_withSlot _).trans hindex.within).trans hvalue.within
  | exitLoop _ | nextLoop _ | ret => exact .refl t
  | retValue hvalue | put hvalue _ => exact hvalue.within
  | eval hexpr => exact hexpr.within

mutual

/-- **Emitting a statement only extends the allocation.** -/
theorem StmtCode.within {env : Env} {depth : Nat} {loop : Option LoopLabels} {scope : ScopeId}
    {t u : Supply} {stmt : Stmt} {code : List Instruction}
    (h : StmtCode env depth loop scope t stmt code u) : t.Within u := by
  match h with
  | .plain hplain => exact hplain.within
  | .branch _ hcond hthen helse =>
      exact ((hcond.within.trans (Supply.within_withLabels _)).trans hthen.within).trans
        helse.within
  | .loop hbody => exact t.within_withLabels.trans hbody.within

theorem BlockCode.within {env : Env} {depth : Nat} {loop : Option LoopLabels} {scope : ScopeId}
    {t u : Supply} {block : List Stmt} {code : List Instruction}
    (h : BlockCode env depth loop scope t block code u) : t.Within u := by
  match h with
  | .nil => exact .refl t
  | .cons hstmt hrest => exact hstmt.within.trans hrest.within

end

end StackBackend.Lowering
