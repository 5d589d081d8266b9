import StackBackend.Proofs.Lowering.Laws
import StackBackend.Proofs.Lowering.Slots

/-!
# When slots run out

Slot numbers have sixteen bits, and a body for which they do not suffice is not lowered.  How many a
body takes can be read off it: lowering gives slots to what the body needs them for, and to nothing
else.

* `law_fills` — lowering runs out of slots only when every number is taken;
* `law_needs` — the keys that get slots are distinct, and all of them are needed;
* `Emit.RunsOut` — both together, of an action that fails for want of slots;
* `Slots.Meets`, `Supplies.meets` — the slots of a whole body, whose parameters come first.
-/

namespace StackBackend.Lowering

open Emit

/-! ## Every number is taken -/

/-- An action fails for want of slots only when every number is taken. -/
def Emit.Fills (α : Type) (x : Emit α) : Prop :=
  ∀ s, (x.ending s).1 = .error .outOfSlots → slotLimit ≤ (x.ending s).2.slots.size

lemma Emit.Fills.bind {α β : Type} {x : Emit α} {f : α → Emit β} (hx : Fills α x)
    (hf : ∀ a, Fills β (f a)) : Fills β (x >>= f) := by
  intro s
  have full := hx s
  rw [ending_bind]
  cases hend : x.ending s with
  | mk result r =>
      rw [hend] at full
      cases result with
      | error e => exact fun he => full (by simpa using he)
      | ok a => exact hf a r

/-- An action that does not ask for slots does not run out of them. -/
lemma Emit.fills_of_ne {α : Type} {x : Emit α} (hne : ∀ s, (x.ending s).1 ≠ .error .outOfSlots) :
    Fills α x :=
  fun s he => absurd he (hne s)

lemma Emit.fills_slotOf (key : SlotKey) : Fills Nat (slotOf key) := by
  intro s he
  rw [ending_slotOf] at he ⊢
  split at he
  · simp at he
  · next full =>
      rw [if_neg full]
      exact Nat.le_of_not_lt full

/-- **Lowering runs out of slots only when every number is taken.** -/
lemma law_fills : Emit.Law fun α _ x => Emit.Fills α x where
  pure a := fills_of_ne fun _ => nofun
  bind := Fills.bind
  refuse _ _ _ := fills_of_ne fun _ => nofun
  argsSlot name hf :=
    (fills_of_ne (x := get) fun _ => nofun).bind fun _ => (fills_slotOf _).bind hf
  innermostLoop stmt span := by
    refine (fills_of_ne (x := get) fun _ => nofun).bind fun s => ?_
    split
    · exact fills_of_ne fun _ => nofun
    · exact fills_of_ne fun _ => nofun
  jumpUnlessReturned i target hx := by
    refine (fills_of_ne (x := emit i) fun _ => nofun).bind fun _ => hx.bind fun _ => ?_
    refine (fills_of_ne (x := get) fun _ => nofun).bind fun s => ?_
    split
    · exact fills_of_ne fun _ => nofun
    · exact fills_of_ne fun _ => nofun
  emit i := fills_of_ne fun _ => nofun
  emitAll is := fills_of_ne fun _ => nofun
  freshLabel := fills_of_ne fun _ => nofun
  varSlot _ := fills_slotOf _
  listLiteralSlot s := fills_slotOf _ { s with listLiterals := s.listLiterals + 1 }
  withLoop _ hx s := hx { s with loops := _ }
  inCall hx s := hx s.deeper

/-! ## Every number is needed -/

/-- **From `s` to `s'`, slots have been given to what is needed**: the new keys are distinct, and
all of them are needed.  No more list literals have been met than are needed, and no call is left
open. -/
structure State.Supplies (d : Demand) (s s' : State) : Prop where
  keys : ∃ new, s'.slots.keys = new ++ s.slots.keys ∧ new.Nodup ∧
    ∀ key ∈ new, key ∉ s.slots.keys ∧ key ∈ d.keys s.listLiterals
  literals : s.listLiterals ≤ s'.listLiterals ∧ s'.listLiterals ≤ s.listLiterals + d.literals
  callDepth : s'.callDepth = s.callDepth

namespace State

variable {d d' : Demand} {s s' r : State}

lemma supplies_of_same (hslots : s'.slots = s.slots) (hliterals : s'.listLiterals = s.listLiterals)
    (hdepth : s'.callDepth = s.callDepth) : s.Supplies d s' where
  keys := ⟨[], by rw [hslots]; rfl, List.nodup_nil, nofun⟩
  literals := by omega
  callDepth := hdepth

lemma Supplies.append_right (h : s.Supplies d s') (d' : Demand) : s.Supplies (d ++ d') s' := by
  obtain ⟨new, hnew, hdistinct, hneeded⟩ := h.keys
  refine ⟨⟨new, hnew, hdistinct, fun key hkey => (hneeded key hkey).imp_right ?_⟩, ?_, h.callDepth⟩
  · exact Demand.mem_keys_append_left
  · have := h.literals
    simp only [Demand.literals_append]
    omega

lemma Supplies.trans (h : s.Supplies d r) (h' : r.Supplies d' s') : s.Supplies (d ++ d') s' := by
  obtain ⟨new, hnew, hdistinct, hneeded⟩ := h.keys
  obtain ⟨newer, hnewer, hdistinct', hneeded'⟩ := h'.keys
  have counted := h.literals
  have counted' := h'.literals
  rw [hnew] at hnewer hneeded'
  refine ⟨⟨newer ++ new, by rw [hnewer, List.append_assoc], ?_, ?_⟩, ?_,
    h'.callDepth.trans h.callDepth⟩
  · refine List.nodup_append.2 ⟨hdistinct', hdistinct, fun key hkey other hother => ?_⟩
    rintro rfl
    exact (hneeded' key hkey).1 (List.mem_append_left _ hother)
  · intro key hkey
    rcases List.mem_append.1 hkey with hkey | hkey
    · obtain ⟨hfresh, hin⟩ := hneeded' key hkey
      exact ⟨fun hold => hfresh (List.mem_append_right _ hold),
        Demand.mem_keys_append_right counted.1 counted.2 hin⟩
    · exact (hneeded key hkey).imp_right Demand.mem_keys_append_left
  · simp only [Demand.literals_append]
    omega

end State

/-- An action gives slots to what it needs them for, however it ends. -/
def Emit.Needs (α : Type) (n : Need) (x : Emit α) : Prop :=
  ∀ s : State, s.Supplies (n s.callDepth) (x.ending s).2

namespace Emit

variable {α β : Type} {n n' : Need}

/-- What the two parts of an action supply, the action supplies. -/
lemma supplies_bind {d d' : Demand} {x : Emit α} {f : α → Emit β} {s : State}
    (hx : s.Supplies d (x.ending s).2)
    (hf : ∀ (a : α) (r : State), r.callDepth = s.callDepth → r.Supplies d' ((f a).ending r).2) :
    s.Supplies (d ++ d') ((x >>= f).ending s).2 := by
  rw [ending_bind]
  cases hend : x.ending s with
  | mk result r =>
      rw [hend] at hx
      cases result with
      | error e => exact hx.append_right _
      | ok a => exact hx.trans (hf a r hx.callDepth)

lemma Needs.bind {x : Emit α} {f : α → Emit β} (hx : Needs α n x) (hf : ∀ a, Needs β n' (f a)) :
    Needs β (n ++ n') (x >>= f) :=
  fun s => supplies_bind (hx s) fun a r hdepth => hdepth ▸ hf a r

/-- An action that leaves the slots and the counts alone needs nothing. -/
lemma needs_of_same {x : Emit α} (hx : ∀ s, (x.ending s).2.slots = s.slots ∧
    (x.ending s).2.listLiterals = s.listLiterals ∧ (x.ending s).2.callDepth = s.callDepth) :
    Needs α n x :=
  fun s => State.supplies_of_same (hx s).1 (hx s).2.1 (hx s).2.2

/-- Nor does an action that reads the state first. -/
lemma needs_read {f : State → Emit α} (hf : ∀ s, Needs α ∅ (f s)) : Needs α ∅ (get >>= f) := by
  have reads : Needs State ∅ get := needs_of_same fun _ => ⟨rfl, rfl, rfl⟩
  have joined := reads.bind hf
  rwa [Need.append_empty] at joined

lemma needs_emit (i : Instruction) : Needs Unit ∅ (emit i) :=
  needs_of_same fun _ => ⟨rfl, rfl, rfl⟩

/-- Asking for the slot of a key that is needed, in a state that differs from `s` by list literals
that have been counted. -/
lemma supplies_slotOf {d : Demand} {s r : State} {key : SlotKey}
    (hkey : key ∈ d.keys s.listLiterals) (hslots : r.slots = s.slots)
    (hdepth : r.callDepth = s.callDepth) (hcounted : s.listLiterals ≤ r.listLiterals ∧
      r.listLiterals ≤ s.listLiterals + d.literals) : s.Supplies d ((slotOf key).ending r).2 := by
  rw [ending_slotOf]
  split
  · refine ⟨?_, hcounted, hdepth⟩
    have entered := s.slots.enter_keys key
    rw [hslots]
    by_cases hold : key ∈ s.slots.keys
    · exact ⟨[], by simpa [hold] using entered, List.nodup_nil, nofun⟩
    · exact ⟨[key], by simpa [hold] using entered, by simp, by simp [hold, hkey]⟩
  · exact ⟨⟨[], by rw [hslots]; rfl, List.nodup_nil, nofun⟩, hcounted, hdepth⟩

lemma Needs.inCall {x : Emit Unit} (hx : Needs Unit n x) : Needs Unit n.inside (inCall x) := by
  intro s
  have inner := hx s.deeper
  have depth : (x.ending s.deeper).2.callDepth = s.callDepth + 1 := inner.callDepth
  exact ⟨inner.keys, inner.literals, by simp [ending_inCall, State.shallower, depth]⟩

end Emit

/-- **Lowering gives slots to what the tree needs them for**, and to nothing else. -/
lemma law_needs : Emit.Law Emit.Needs where
  pure a := needs_of_same fun _ => ⟨rfl, rfl, rfl⟩
  bind := Needs.bind
  refuse _ _ _ := needs_of_same fun _ => ⟨rfl, rfl, rfl⟩
  argsSlot name hf s :=
    supplies_bind (x := slotOf (.callArgs name s.callDepth))
      (supplies_slotOf (by simp [Need.call]) rfl rfl (by simp))
      fun slot r hdepth => hdepth ▸ hf slot r
  innermostLoop stmt span := by
    refine needs_read fun s => ?_
    split <;> exact needs_of_same fun _ => ⟨rfl, rfl, rfl⟩
  jumpUnlessReturned i target hx := by
    have jumps : Needs Unit ∅ (jumpUnlessReturned target) := by
      refine needs_read fun s => ?_
      split
      · exact needs_of_same fun _ => ⟨rfl, rfl, rfl⟩
      · exact needs_emit _
    have joined := (needs_emit i).bind fun _ => hx.bind fun _ => jumps
    rwa [Need.append_empty, Need.empty_append] at joined
  emit := needs_emit
  emitAll is := needs_of_same fun _ => ⟨rfl, rfl, rfl⟩
  freshLabel := needs_of_same fun _ => ⟨rfl, rfl, rfl⟩
  varSlot name s := supplies_slotOf (by simp [Need.var]) rfl rfl (by simp)
  listLiteralSlot s :=
    supplies_slotOf (r := { s with listLiterals := s.listLiterals + 1 }) (by simp [Need.literal])
      rfl rfl (by simp [Need.literal])
  withLoop labels hx s :=
    have inner := hx { s with loops := s.loops.push labels }
    ⟨inner.keys, inner.literals, inner.callDepth⟩
  inCall := Needs.inCall

/-! ## Running out -/

/-- **An action runs out of slots**: it fails for want of one, every number is taken, and what is
needed has them all. -/
structure Emit.RunsOut {α : Type} (x : Emit α) (n : Need) (s : State) : Prop where
  fails : (x.ending s).1 = .error .outOfSlots
  full : slotLimit ≤ (x.ending s).2.slots.size
  needed : (x.ending s).2.slots.size ≤ s.slots.size + (n s.callDepth).size

lemma State.Supplies.size_le {d : Demand} {s s' : State} (h : s.Supplies d s') :
    s'.slots.size ≤ s.slots.size + d.size := by
  obtain ⟨new, hnew, hdistinct, hneeded⟩ := h.keys
  have few := Demand.length_le_size hdistinct fun key hkey => (hneeded key hkey).2
  rw [s'.slots.counted, s.slots.counted, hnew, List.length_append]
  omega

/-- An action that fails for want of slots has run out of them. -/
lemma Emit.runsOut_of_fails {α : Type} {x : Emit α} {n : Need} (hfills : Fills α x)
    (hneeds : Needs α n x) {s : State} (hfails : (x.ending s).1 = .error .outOfSlots) :
    x.RunsOut n s :=
  ⟨hfails, hfills s hfails, (hneeds s).size_le⟩

/-! ## Whole bodies -/

/-- The slots are those of distinct keys, and all of them are needed. -/
structure Slots.Meets (s : Slots) (d : Demand) : Prop where
  distinct : s.keys.Nodup
  needed : ∀ key ∈ s.keys, key ∈ d.keys 0

lemma Slots.meets_empty (d : Demand) : Slots.empty.Meets d := ⟨List.nodup_nil, nofun⟩

lemma Slots.Meets.size_le {s : Slots} {d : Demand} (h : s.Meets d) : s.size ≤ d.size := by
  rw [s.counted]
  exact Demand.length_le_size h.distinct h.needed

lemma Slots.Meets.enter {s : Slots} {d : Demand} (h : s.Meets d) {key : SlotKey}
    (hkey : key ∈ d.keys 0) : (s.enter key).2.Meets d := by
  by_cases hold : key ∈ s.keys
  · have same : (s.enter key).2.keys = s.keys := by simp [s.enter_keys, hold]
    exact ⟨same ▸ h.distinct, same ▸ h.needed⟩
  · have grown : (s.enter key).2.keys = key :: s.keys := by simp [s.enter_keys, hold]
    exact ⟨grown ▸ List.nodup_cons.2 ⟨hold, h.distinct⟩,
      grown ▸ List.forall_mem_cons.2 ⟨hkey, h.needed⟩⟩

/-- The slots at the end of a body are those of its parameters and of what else it needs. -/
lemma State.Supplies.meets {d d' : Demand} {s s' : State} (h : s.Supplies d' s')
    (hs : s.slots.Meets d) (hfirst : s.listLiterals = 0) : s'.slots.Meets (d ++ d') := by
  obtain ⟨new, hnew, hdistinct, hneeded⟩ := h.keys
  rw [hfirst] at hneeded
  constructor
  · rw [hnew]
    refine List.nodup_append.2 ⟨hdistinct, hs.distinct, fun key hkey other hother => ?_⟩
    rintro rfl
    exact (hneeded key hkey).1 hother
  · intro key hkey
    rw [hnew] at hkey
    rcases List.mem_append.1 hkey with hkey | hkey
    · exact Demand.mem_keys_append_right (Nat.le_refl 0) (Nat.zero_le _) (hneeded key hkey).2
    · exact Demand.mem_keys_append_left (hs.needed key hkey)

/-- Parameters get slots, or there are too many of them. -/
lemma paramSlots_or_full {d : Demand} {params : List Param} {slots : Slots} (h : slots.Meets d)
    (hparams : ∀ param ∈ params, param.name ∈ d.vars) :
    (∃ slots', paramSlots slots params = .ok slots' ∧ slots'.Meets d) ∨
      paramSlots slots params = .error .outOfSlots ∧ slotLimit ≤ d.size := by
  induction params generalizing slots with
  | nil => exact .inl ⟨slots, rfl, h⟩
  | cons param rest ih =>
      rw [paramSlots, Slots.slot]
      by_cases room : slots.size < slotLimit
      · rw [if_pos room]
        have needed : .var param.name ∈ d.keys 0 := by simpa using hparams param (by simp)
        exact ih (h.enter needed) fun other hother => hparams other (List.mem_cons_of_mem _ hother)
      · rw [if_neg room]
        exact .inr ⟨rfl, Nat.le_trans (Nat.le_of_not_lt room) h.size_le⟩

end StackBackend.Lowering
