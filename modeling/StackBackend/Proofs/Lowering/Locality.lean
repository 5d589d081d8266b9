import StackBackend.Proofs.Lowering.Laws
import StackBackend.Proofs.Lowering.Slots

/-!
# Lowering is local

A piece of lowering works on a state that it shares with everything around it: the code emitted so
far, the labels and slots handed out, the loops and calls it stands in.  It leaves all of that as it
found it, apart from appending and handing out more, and it does so whether it succeeds or fails.

**What is kept.**  `State.Extends` relates the state before and the state after: no label is taken
back, no key loses its slot, and the loops and calls around are the same ones as before, so a piece
that fails inside of them has left them again.

**What is not looked at.**  Code that is already there makes no difference to what is appended
(`Emit.Local`).  This is not true of every action: the jump behind a branch looks at the last
instruction to see whether the branch has returned.  It is true of the branch as a whole, since that
begins with an instruction of its own, so the last one is never an earlier one
(`local_jumpUnlessReturned`).

Both are laws of actions (`law_local`), from which `lowering_local` follows for expressions,
statements and blocks.
-/

namespace StackBackend.Lowering

open Emit

/-! ## States -/

/-- **The state after some lowering**, but for the code: more has been handed out, and the loops and
calls around are the same. -/
structure State.Extends (s s' : State) : Prop where
  labels : s.labels.issued ≤ s'.labels.issued
  slots : ∀ key slot, s.slots.get? key = some slot → s'.slots.get? key = some slot
  loops : s'.loops.loops = s.loops.loops
  /-- As many loops were left as entered. -/
  balanced : ∃ n, s'.loops.entered = s.loops.entered + n ∧ s'.loops.left = s.loops.left + n
  callDepth : s'.callDepth = s.callDepth

namespace State.Extends

variable {s s' s'' : State}

lemma refl (s : State) : s.Extends s :=
  ⟨Nat.le_refl _, fun _ _ h => h, rfl, ⟨0, rfl, rfl⟩, rfl⟩

lemma trans (h : s.Extends s') (h' : s'.Extends s'') : s.Extends s'' := by
  obtain ⟨n, hentered, hleft⟩ := h.balanced
  obtain ⟨n', hentered', hleft'⟩ := h'.balanced
  exact ⟨Nat.le_trans h.labels h'.labels, fun key slot hslot =>
    h'.slots key slot (h.slots key slot hslot), h'.loops.trans h.loops,
      ⟨n + n', by omega, by omega⟩, h'.callDepth.trans h.callDepth⟩

/-- A loop that was entered is left again. -/
lemma leaveLoop {labels : LoopLabels}
    (h : State.Extends { s with loops := s.loops.push labels } s') :
    s.Extends { s' with loops := s'.loops.pop.2 } := by
  have around : s'.loops.loops = labels :: s.loops.loops := h.loops
  have left : s'.loops.pop.2 =
      { s'.loops with loops := s.loops.loops, left := s'.loops.left + 1 } := by
    rw [LoopStack.pop, around]
  obtain ⟨n, hentered, hleft⟩ := h.balanced
  have entered : s'.loops.entered = s.loops.entered + 1 + n := hentered
  have leaving : s'.loops.left = s.loops.left + n := hleft
  refine ⟨h.labels, h.slots, ?_, ⟨n + 1, ?_, ?_⟩, h.callDepth⟩
  · rw [left]
  · rw [left, ← Nat.add_assoc, Nat.add_right_comm]
    exact entered
  · rw [left, ← Nat.add_assoc]
    exact congrArg (· + 1) leaving

/-- A call that was entered is left again. -/
lemma leaveCall (h : s.deeper.Extends s') : s.Extends s'.shallower := by
  have depth : s'.callDepth = s.callDepth + 1 := h.callDepth
  refine ⟨h.labels, h.slots, h.loops, h.balanced, ?_⟩
  rw [shallower, depth, Nat.add_sub_cancel]

end State.Extends

/-- The state with other code in the buffer. -/
def State.withCode (s : State) (code : Code) : State := { s with code }

/-! ## Actions -/

namespace Emit

/-- **An action appends code without looking at what is there.**  From a state it ends in one way,
with one piece of code appended to whatever code there is. -/
def Local (α : Type) (x : Emit α) : Prop :=
  ∀ s : State, ∃ result, ∃ added : Code, ∃ r, s.Extends r ∧
    ∀ code, x.ending (s.withCode code) = (result, r.withCode (code ++ added))

variable {α β : Type}

/-- An action that appends nothing is local if it ends alike whatever the code. -/
lemma local_of_ending {x : Emit α}
    (hx : ∀ s : State, ∃ result r, s.Extends r ∧
      ∀ code, x.ending (s.withCode code) = (result, r.withCode code)) : Local α x := by
  intro s
  obtain ⟨result, r, hr, hending⟩ := hx s
  refine ⟨result, #[], r, hr, fun code => ?_⟩
  rw [hending, Array.append_empty]

lemma Local.bind {x : Emit α} {f : α → Emit β} (hx : Local α x) (hf : ∀ a, Local β (f a)) :
    Local β (x >>= f) := by
  intro s
  obtain ⟨result, added, r, hr, hending⟩ := hx s
  cases result with
  | error e =>
      refine ⟨.error e, added, r, hr, fun code => ?_⟩
      rw [ending_bind, hending]
  | ok a =>
      obtain ⟨result', added', r', hr', hending'⟩ := hf a r
      refine ⟨result', added ++ added', r', hr.trans hr', fun code => ?_⟩
      rw [ending_bind, hending, ← Array.append_assoc]
      exact hending' (code ++ added)

lemma local_pure (a : α) : Local α (pure a) :=
  local_of_ending fun s => ⟨.ok a, s, .refl s, fun _ => rfl⟩

lemma local_refuse (fault : ShapeFault) (span : Span) : Local α (refuse fault span) :=
  local_of_ending fun s => ⟨.error (.shape fault span), s, .refl s, fun _ => rfl⟩

lemma local_emit (i : Instruction) : Local Unit (emit i) :=
  fun s => ⟨.ok (), #[i], s, .refl s, fun _ => rfl⟩

lemma local_emitAll (is : List Instruction) : Local Unit (emitAll is) := by
  intro s
  refine ⟨.ok (), is.toArray, s, .refl s, fun code => ?_⟩
  have joined : code ++ is = code ++ is.toArray := Array.toList_inj.1 (by simp)
  rw [← joined]
  rfl

lemma local_freshLabel : Local Label freshLabel :=
  local_of_ending fun s => ⟨.ok ⟨s.labels.issued⟩, { s with labels := s.labels.fresh.2 },
    { State.Extends.refl s with labels := Nat.le_succ _ }, fun _ => rfl⟩

lemma local_slotOf (key : SlotKey) : Local Nat (slotOf key) := by
  refine local_of_ending fun s => ?_
  by_cases room : s.slots.size < slotLimit
  · refine ⟨.ok (s.slots.enter key).1, { s with slots := (s.slots.enter key).2 },
      { State.Extends.refl s with
        slots := fun _ _ => Slots.get?_of_within (s.slots.within_enter key) }, fun code => ?_⟩
    rw [ending_slotOf]
    exact if_pos room
  · refine ⟨.error .outOfSlots, s, .refl s, fun code => ?_⟩
    rw [ending_slotOf]
    exact if_neg room

lemma local_listLiteralSlot : Local Nat listLiteralSlot := by
  refine Local.bind (local_of_ending fun s => ?_) fun number => local_slotOf _
  exact ⟨.ok s.listLiterals, { s with listLiterals := s.listLiterals + 1 },
    { State.Extends.refl s with }, fun _ => rfl⟩

/-- What is read of the state is something that code has no part in. -/
lemma local_read {f : State → Emit α} (hblind : ∀ s code, f (s.withCode code) = f s)
    (hf : ∀ s, Local α (f s)) : Local α (get >>= f) := by
  intro s
  obtain ⟨result, added, r, hr, hending⟩ := hf s s
  refine ⟨result, added, r, hr, fun code => ?_⟩
  have opened : (get >>= f).ending (s.withCode code) =
      (f (s.withCode code)).ending (s.withCode code) := rfl
  rw [opened, hblind, hending]

/-- Whether code ends in a return is seen at its last piece, unless that is empty. -/
lemma endsWithReturn_append (code : Code) {last : Code} (hlast : last ≠ #[]) :
    Code.endsWithReturn (code ++ last) = last.endsWithReturn := by
  obtain ⟨i, hi⟩ : ∃ i, last.back? = some i := by
    cases h : last.back? with
    | none => exact absurd (Array.back?_eq_none_iff.1 h) hlast
    | some i => exact ⟨i, rfl⟩
  simp only [Code.endsWithReturn, Array.back?_append, hi, Option.some_or]

/-- A branch looks no further back than to the instruction that it begins with. -/
lemma local_jumpUnlessReturned {x : Emit Unit} (i : Instruction) (target : Label)
    (hx : Local Unit x) :
    Local Unit (emit i >>= fun _ => x >>= fun _ => jumpUnlessReturned target) := by
  intro s
  obtain ⟨result, added, r, hr, hending⟩ := hx s
  have begun : ∀ code, (emit i >>= fun _ => x).ending (s.withCode code) =
      (result, r.withCode (code ++ (#[i] ++ added))) := by
    intro code
    rw [← Array.append_assoc]
    exact hending (code ++ #[i])
  cases result with
  | error e =>
      refine ⟨.error e, #[i] ++ added, r, hr, fun code => ?_⟩
      rw [← bind_assoc, ending_bind, begun]
  | ok u =>
      -- the branch is not empty, so its last instruction decides what is left to do
      have left : ∀ code : Code,
          (jumpUnlessReturned target).ending (r.withCode (code ++ (#[i] ++ added))) =
            Emit.ending
              (if Code.endsWithReturn (#[i] ++ added) then pure () else emit (.jump target))
              (r.withCode (code ++ (#[i] ++ added))) := by
        intro code
        rw [← endsWithReturn_append code (by simp)]
        rfl
      have last : Local Unit
          (if Code.endsWithReturn (#[i] ++ added) then pure () else emit (.jump target)) := by
        split
        · exact local_pure ()
        · exact local_emit _
      obtain ⟨result', added', r', hr', hending'⟩ := last r
      refine ⟨result', #[i] ++ added ++ added', r', hr.trans hr', fun code => ?_⟩
      rw [← bind_assoc, ending_bind, begun]
      simp only [left, hending', Array.append_assoc]

lemma local_withLoop {x : Emit Unit} (labels : LoopLabels) (hx : Local Unit x) :
    Local Unit (withLoop labels x) := by
  intro s
  obtain ⟨result, added, r, hr, hending⟩ := hx { s with loops := s.loops.push labels }
  refine ⟨result, added, _, hr.leaveLoop, fun code => ?_⟩
  have inside : x.ending { s.withCode code with loops := (s.withCode code).loops.push labels } =
      (result, r.withCode (code ++ added)) := hending code
  rw [ending_withLoop, inside]
  rfl

lemma local_inCall {x : Emit Unit} (hx : Local Unit x) : Local Unit (inCall x) := by
  intro s
  obtain ⟨result, added, r, hr, hending⟩ := hx s.deeper
  refine ⟨result, added, _, hr.leaveCall, fun code => ?_⟩
  have inside : x.ending (s.withCode code).deeper = (result, r.withCode (code ++ added)) :=
    hending code
  rw [ending_inCall, inside]
  rfl

end Emit

/-- Whatever lowers a tree is local. -/
lemma law_local : Emit.Law fun α _ x => Emit.Local α x where
  pure := local_pure
  bind := Local.bind
  refuse _ := local_refuse
  argsSlot name hf := local_read (fun _ _ => rfl) fun _ => (local_slotOf _).bind hf
  innermostLoop stmt span := by
    refine local_read (fun _ _ => rfl) fun s => ?_
    split
    · exact local_pure _
    · exact local_refuse _ _
  jumpUnlessReturned := local_jumpUnlessReturned
  emit := local_emit
  emitAll := local_emitAll
  freshLabel := local_freshLabel
  varSlot _ := local_slotOf _
  listLiteralSlot := local_listLiteralSlot
  withLoop := local_withLoop
  inCall := local_inCall

/-! ## Pieces of lowering -/

/-- **What a piece of lowering does to the state it starts from**, whether it succeeds or fails: it
appends code and keeps everything else, and on top of any other code it would have ended alike and
appended the same. -/
structure Emit.Appends (x : Emit Unit) (s : State) (added : Code) : Prop where
  code : (x.ending s).2.code = s.code ++ added
  kept : s.Extends (x.ending s).2
  blind : ∀ code, x.ending { s with code } =
    ((x.ending s).1, { (x.ending s).2 with code := code ++ added })

lemma Emit.Local.exists_appends {x : Emit Unit} (hx : Local Unit x) (s : State) :
    ∃ added, x.Appends s added := by
  obtain ⟨result, added, r, hr, hending⟩ := hx s
  have ended : x.ending s = (result, r.withCode (s.code ++ added)) := hending s.code
  refine ⟨added, by rw [ended]; rfl, ?_, fun code => ?_⟩
  · rw [ended]
    exact { hr with }
  · rw [ended]
    exact hending code

/-- **Lowering appends and restores its context**, also when it fails, and does not look at the code
that is there. -/
theorem lowering_local (env : Env) (scope : ScopeId) (s : State) :
    (∀ e, ∃ added, (lowerExpr env scope e).Appends s added) ∧
      (∀ e, ∃ added, (lowerValue env scope e).Appends s added) ∧
      (∀ stmt, ∃ added, (lowerStmt env scope stmt).Appends s added) ∧
      ∀ block, ∃ added, (lowerBlock env scope block).Appends s added :=
  ⟨fun e => (law_local.lowerExpr env scope e).exists_appends s,
    fun e => (law_local.lowerValue env scope e).exists_appends s,
    fun stmt => (law_local.lowerStmt env scope stmt).exists_appends s,
    fun block => (law_local.lowerBlock env scope block).exists_appends s⟩

/-- A text in a sum is refused, here two calls and a loop deep: the code up to there stays, and all
three are left again. -/
example :
    let int : Note := { ty := .int, span := default }
    let call (e : Expr) : Expr := .call int (.ident int "f") [e]
    let sum : Expr := .binary int .add (.int int 1) (.str { int with ty := .string } "one")
    let ended := (lowerStmt ⟨.initial, {}⟩ .global
      (.loop default [.put default (call (call sum))] none)).ending {}
    ended.1.toOption = none ∧ ended.2.code.size = 16 ∧ ended.2.loops = ⟨[], 1, 1⟩ ∧
      ended.2.callDepth = 0 := by
  decide +kernel

end StackBackend.Lowering
