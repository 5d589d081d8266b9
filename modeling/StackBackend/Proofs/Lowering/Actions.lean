import StackBackend.Lowering.Statement
import Mathlib.Tactic.Lemma

/-!
# What a successful lowering action does

An action on the state of lowering that succeeds appends instructions and draws on a supply of
labels, slots and numbers for list literals; it leaves everything else alone.  `Supply` is what it
draws on and `State.grown` the state afterwards.  `Emit.Does` says that an action succeeds, and the
lemmas here say, primitive by primitive, from which state to which: sequencing becomes an
existential (`does_bind`), each primitive an equation on `State.grown`.  Lowering is taken apart
with them once, in the module on the shape of lowered code, and nowhere else.
-/

namespace StackBackend.Lowering

/-! ## The supply -/

/-- What lowering draws on: the labels taken so far, the slots handed out, and the number of list
literals met. -/
structure Supply where
  labels : Nat
  slots : Slots
  literals : Nat

namespace Supply

/-- There is a number left for another slot. -/
def HasRoom (t : Supply) : Prop := t.slots.size < slotLimit

/-- The slot of a key. -/
def slotOf (t : Supply) (key : SlotKey) : Nat := (t.slots.enter key).1

/-- The supply after a key was given its slot. -/
def withSlot (t : Supply) (key : SlotKey) : Supply := { t with slots := (t.slots.enter key).2 }

/-- The supply after two labels were taken; labels are only ever taken in pairs. -/
def withLabels (t : Supply) : Supply := { t with labels := t.labels + 2 }

/-- The supply after a list literal was counted and given its slot. -/
def withLiteral (t : Supply) : Supply :=
  { t with literals := t.literals + 1 }.withSlot (.listLiteral t.literals)

@[simp] lemma labels_withSlot (t : Supply) (key : SlotKey) : (t.withSlot key).labels = t.labels :=
  rfl

@[simp] lemma literals_withSlot (t : Supply) (key : SlotKey) :
    (t.withSlot key).literals = t.literals := rfl

@[simp] lemma labels_withLabels (t : Supply) : t.withLabels.labels = t.labels + 2 := rfl

@[simp] lemma labels_withLiteral (t : Supply) : t.withLiteral.labels = t.labels := rfl

end Supply

/-! ## The state -/

namespace State

/-- What the actions from here on draw on. -/
def supply (s : State) : Supply := ⟨s.labels.issued, s.slots, s.listLiterals⟩

/-- The state after `code` was appended and the supply has become `t`. -/
def grown (s : State) (code : List Instruction) (t : Supply) : State :=
  { s with
    labels := ⟨t.labels⟩, slots := t.slots, listLiterals := t.literals, code := s.code ++ code }

@[simp] lemma supply_grown (s : State) (code : List Instruction) (t : Supply) :
    (s.grown code t).supply = t := rfl

@[simp] lemma callDepth_grown (s : State) (code : List Instruction) (t : Supply) :
    (s.grown code t).callDepth = s.callDepth := rfl

@[simp] lemma loops_grown (s : State) (code : List Instruction) (t : Supply) :
    (s.grown code t).loops = s.loops := rfl

@[simp] lemma code_grown (s : State) (code : List Instruction) (t : Supply) :
    (s.grown code t).code = s.code ++ code := rfl

@[simp] lemma grown_grown (s : State) (code more : List Instruction) (t u : Supply) :
    (s.grown code t).grown more u = s.grown (code ++ more) u := by
  have joined : s.code ++ code ++ more = s.code ++ (code ++ more) :=
    Array.toList_inj.1 (by simp)
  simp [grown, joined]

/-- The state on the arguments of a call: one call deeper. -/
def deeper (s : State) : State := { s with callDepth := s.callDepth + 1 }

/-- The state after the arguments of a call. -/
def shallower (s : State) : State := { s with callDepth := s.callDepth - 1 }

@[simp] lemma supply_deeper (s : State) : s.deeper.supply = s.supply := rfl

@[simp] lemma callDepth_deeper (s : State) : s.deeper.callDepth = s.callDepth + 1 := rfl

lemma shallower_deeper_grown (s : State) (code : List Instruction) (t : Supply) :
    (s.deeper.grown code t).shallower = s.grown code t := rfl

@[simp] lemma grown_nil (s : State) : s.grown [] s.supply = s := by
  simp [grown, supply]

end State

/-! ## Actions that succeed -/

namespace Emit

variable {α β : Type}

/-- How an action ends, and in what state. -/
def ending (x : Emit α) (s : State) : Except LoweringError α × State := x.run s

/-- The action succeeds from `s` with a result, in the state `s'`. -/
def Does (x : Emit α) (s : State) (a : α) (s' : State) : Prop := x.ending s = (.ok a, s')

/-- One action after another: a failure of the first is one of both. -/
lemma ending_bind (x : Emit α) (f : α → Emit β) (s : State) :
    (x >>= f).ending s
      = match x.ending s with
        | (.ok a, r) => (f a).ending r
        | (.error e, r) => (.error e, r) := by
  simp only [ending, ExceptT.run_bind]
  simp only [bind, StateT.bind]
  rcases x.run s with ⟨e | a, r⟩ <;> rfl

lemma does_bind {x : Emit α} {f : α → Emit β} {s s' : State} {b : β} :
    (x >>= f).Does s b s' ↔ ∃ a r, x.Does s a r ∧ (f a).Does r b s' := by
  simp only [Does, ending_bind]
  rcases x.ending s with ⟨e | a, r⟩ <;> simp [and_assoc]

/-- An action without a result to speak of has one result. -/
@[simp] lemma exists_unit {p : Unit → Prop} : (∃ u, p u) ↔ p () :=
  ⟨fun ⟨(), h⟩ => h, fun h => ⟨(), h⟩⟩

@[simp] lemma does_pure {a b : α} {s s' : State} :
    (pure a : Emit α).Does s b s' ↔ b = a ∧ s' = s := by
  change ((.ok a, s) : Except LoweringError α × State) = (.ok b, s') ↔ _
  simp [eq_comm]

@[simp] lemma does_emitAll {is : List Instruction} {s s' : State} {u : Unit} :
    (emitAll is).Does s u s' ↔ s' = s.grown is s.supply := by
  change ((.ok (), { s with code := s.code ++ is }) : Except LoweringError Unit × State)
    = (.ok u, s') ↔ _
  simp [State.grown, State.supply, eq_comm]

@[simp] lemma does_emit {i : Instruction} {s s' : State} {u : Unit} :
    (emit i).Does s u s' ↔ s' = s.grown [i] s.supply := by
  change ((.ok (), { s with code := s.code.push i }) : Except LoweringError Unit × State)
    = (.ok u, s') ↔ _
  simp [State.grown, State.supply, eq_comm]

@[simp] lemma does_refuse {fault : ShapeFault} {span : Span} {s s' : State} {a : α} :
    (refuse fault span : Emit α).Does s a s' ↔ False := by
  change ((.error (.shape fault span), s) : Except LoweringError α × State) = (.ok a, s') ↔ _
  simp

@[simp] lemma does_get {s s' r : State} : (get : Emit State).Does s r s' ↔ r = s ∧ s' = s := by
  change ((.ok s, s) : Except LoweringError State × State) = (.ok r, s') ↔ _
  simp [eq_comm]

/-- A slot is given to a key as long as there are numbers left. -/
lemma ending_slotOf (key : SlotKey) (s : State) :
    (slotOf key).ending s = if s.slots.size < slotLimit
      then (.ok (s.slots.enter key).1, { s with slots := (s.slots.enter key).2 })
      else (.error .outOfSlots, s) := by
  rw [ending, slotOf, ExceptT.run_mk]
  by_cases room : s.slots.size < slotLimit <;> simp [Slots.slot, room]

@[simp] lemma does_slotOf {key : SlotKey} {s s' : State} {slot : Nat} :
    (slotOf key).Does s slot s' ↔ s.supply.HasRoom ∧
      slot = s.supply.slotOf key ∧ s' = s.grown [] (s.supply.withSlot key) := by
  rw [Does, ending_slotOf, Supply.HasRoom]
  split
  · next room =>
      simp [State.grown, State.supply, Supply.slotOf, Supply.withSlot, eq_comm, room]
  · next full => simp [State.supply, full]

@[simp] lemma does_varSlot {name : String} {s s' : State} {slot : Nat} :
    (varSlot name).Does s slot s' ↔ s.supply.HasRoom ∧
      slot = s.supply.slotOf (.var name) ∧ s' = s.grown [] (s.supply.withSlot (.var name)) :=
  does_slotOf

@[simp] lemma does_listLiteralSlot {s s' : State} {slot : Nat} :
    listLiteralSlot.Does s slot s' ↔ s.supply.HasRoom ∧
      slot = s.supply.slotOf (.listLiteral s.supply.literals) ∧
        s' = s.grown [] s.supply.withLiteral := by
  change (slotOf (.listLiteral s.listLiterals)).Does
    { s with listLiterals := s.listLiterals + 1 } slot s' ↔ _
  rw [does_slotOf]
  rfl

/-- Labels are taken two at a time, the second right after the first. -/
lemma does_two_labels {f : Label → Label → Emit α} {s s' : State} {a : α} :
    (freshLabel >>= fun first => freshLabel >>= fun second => f first second).Does s a s' ↔
      (f ⟨s.supply.labels⟩ ⟨s.supply.labels + 1⟩).Does (s.grown [] s.supply.withLabels) a s' := by
  have fresh : ∀ {s s' : State} {l : Label}, freshLabel.Does s l s' ↔
      l = ⟨s.labels.issued⟩ ∧ s' = { s with labels := ⟨s.labels.issued + 1⟩ } := by
    intro s s' l
    change ((.ok ⟨s.labels.issued⟩, { s with labels := ⟨s.labels.issued + 1⟩ }) :
      Except LoweringError Label × State) = (.ok l, s') ↔ _
    simp [eq_comm]
  simp [does_bind, fresh, State.grown, State.supply, Supply.withLabels, and_assoc]

/-- A loop is left, however the action inside it ends. -/
lemma ending_withLoop (labels : LoopLabels) (x : Emit Unit) (s : State) :
    (withLoop labels x).ending s
      = ((x.ending { s with loops := s.loops.push labels }).1,
          { (x.ending { s with loops := s.loops.push labels }).2 with
            loops := (x.ending { s with loops := s.loops.push labels }).2.loops.pop.2 }) := rfl

/-- A call is left, however the action on its arguments ends. -/
lemma ending_inCall (x : Emit Unit) (s : State) :
    (inCall x).ending s = ((x.ending s.deeper).1, (x.ending s.deeper).2.shallower) := rfl

/-- An action inside a loop sees the loop, and the loops afterwards are as before. -/
lemma does_withLoop {labels : LoopLabels} {x : Emit Unit} {s s' : State} {u : Unit} :
    (withLoop labels x).Does s u s' ↔
      ∃ r, x.Does { s with loops := s.loops.push labels } u r ∧
        s' = { r with loops := r.loops.pop.2 } := by
  simp only [Does, ending_withLoop]
  rcases x.ending { s with loops := s.loops.push labels } with ⟨e | a, r⟩ <;> simp [eq_comm]

/-- An action on the arguments of a call is one call deeper. -/
@[simp] lemma does_inCall {x : Emit Unit} {s s' : State} {u : Unit} :
    (inCall x).Does s u s' ↔ ∃ r, x.Does s.deeper u r ∧ s' = r.shallower := by
  simp only [Does, ending_inCall]
  rcases x.ending s.deeper with ⟨e | a, r⟩ <;> simp [eq_comm]

end Emit

end StackBackend.Lowering
