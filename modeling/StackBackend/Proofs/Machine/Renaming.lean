import StackBackend.Proofs.Machine.StepLimit
import StackBackend.Proofs.StackProfile.Renaming

/-!
# Runs do not see the names of labels

Two classes whose methods are found under the same names and have the same bodies, but for the
numbers of their labels, run alike: every request gets the same answer from both (`ending_renamed`).

**Frames.**  `Frame.Renames f a b` says that `b` is the frame `a` in renamed code.  A label that the
code does not define has no place to go by, and a jump to it is reported by its number; so such a
label must keep its number, and then both frames fail alike.

**The simulation** is in lock step: an instruction takes related frames to related frames
(`Renames.execute`), so runs of related states are equal (`run_renamed`).
-/

namespace StackBackend

/-! ## Computations that end alike -/

/-- Two computations fail alike, or succeed with results that are related. -/
inductive Alike {α β : Type} (R : α → β → Prop) : Except Fault α → Except Fault β → Prop
  | error (e : Fault) : Alike R (.error e) (.error e)
  | ok {a : α} {b : β} : R a b → Alike R (.ok a) (.ok b)

lemma alike_rfl {α : Type} (x : Except Fault α) : Alike Eq x x := by
  cases x with
  | error e => exact .error e
  | ok a => exact .ok rfl

section

variable {α β γ δ : Type} {R : α → β → Prop} {S : γ → δ → Prop} {x : Except Fault α}
  {y : Except Fault β}

lemma Alike.eq_or (h : Alike R x y) :
    (∃ e, x = .error e ∧ y = .error e) ∨ ∃ a b, x = .ok a ∧ y = .ok b ∧ R a b := by
  cases h with
  | error e => exact .inl ⟨e, rfl, rfl⟩
  | ok hab => exact .inr ⟨_, _, rfl, rfl, hab⟩

lemma Alike.bind {f : α → Except Fault γ} {g : β → Except Fault δ} (h : Alike R x y)
    (hfg : ∀ a b, R a b → Alike S (f a) (g b)) : Alike S (x >>= f) (y >>= g) := by
  cases h with
  | error e => exact .error e
  | ok hab => exact hfg _ _ hab

end

/-! ## Frames -/

namespace Frame

/-- **A frame in renamed code.**  Labels that are not defined keep their names. -/
structure Renames (f : Nat → Nat) (a b : Frame) : Prop where
  injective : Function.Injective f
  stray : ∀ i ∈ a.code, ∀ l, i.target? = some l → a.labels.lookup l = none → l.rename f = l
  renamed : b = { a with code := a.code.rename f, labels := a.labels.rename f }

/-- A frame in code renamed in some way. -/
def Renamed (a b : Frame) : Prop := ∃ f, a.Renames f b

namespace Renames

variable {f : Nat → Nat} {a b : Frame}

lemma stack (h : a.Renames f b) : b.stack = a.stack := by rw [h.renamed]

lemma locals (h : a.Renames f b) : b.locals = a.locals := by rw [h.renamed]

lemma use (h : a.Renames f b) : b.use = a.use := by rw [h.renamed]

/-- The next instruction is the same, renamed. -/
lemma next? (h : a.Renames f b) : b.code[b.pc]? = a.code[a.pc]?.map (Instruction.rename f) := by
  rw [h.renamed]
  exact Array.getElem?_map

lemma underflow (h : a.Renames f b) : a.underflow = b.underflow := by rw [h.renamed]; rfl

lemma advanced (h : a.Renames f b) : a.advanced.Renames f b.advanced := by
  obtain ⟨injective, stray, rfl⟩ := h
  exact ⟨injective, stray, rfl⟩

lemma push (h : a.Renames f b) (v : Value) : (a.push v).Renames f (b.push v) := by
  obtain ⟨injective, stray, rfl⟩ := h
  exact ⟨injective, stray, rfl⟩

lemma storeLocal (h : a.Renames f b) (slot : Nat) (v : Value) :
    (a.storeLocal slot v).Renames f (b.storeLocal slot v) := by
  obtain ⟨injective, stray, rfl⟩ := h
  rw [Frame.storeLocal, Frame.storeLocal]
  split
  · exact ⟨injective, stray, rfl⟩
  · exact ⟨injective, stray, rfl⟩

lemma receive (h : a.Renames f b) (use : ResultUse) (result : Option Value) :
    (a.receive use result).Renames f (b.receive use result) := by
  cases result with
  | some v => exact h.push v
  | none =>
      cases use with
      | ifAny => exact h
      | orNull => exact h.push .null

/-- The same was popped off both frames. -/
structure PoppedAlike {α : Type} (f : Nat → Nat) (a : Frame) (x y : α × Frame) : Prop where
  value : y.1 = x.1
  frames : x.2.Renames f y.2
  code : x.2.code = a.code

lemma pop (h : a.Renames f b) : Alike (PoppedAlike f a) a.pop b.pop := by
  rw [Frame.pop, Frame.pop, h.stack]
  cases a.stack with
  | nil => exact h.underflow ▸ .error _
  | cons v stack =>
      obtain ⟨injective, stray, rfl⟩ := h
      exact .ok ⟨rfl, ⟨injective, stray, rfl⟩, rfl⟩

lemma popInt (h : a.Renames f b) (heap : Heap) :
    Alike (PoppedAlike f a) (a.popInt heap) (b.popInt heap) := by
  rw [Frame.popInt, Frame.popInt]
  rcases h.pop.eq_or with ⟨e, ha, hb⟩ | ⟨⟨v, a'⟩, ⟨v', b'⟩, ha, hb, rfl, h', hcode⟩
  · rw [ha, hb]
    exact .error e
  · rw [ha, hb]
    simp only
    cases heap.rawInt v' with
    | error e => exact .error e
    | ok value => exact .ok ⟨rfl, h', hcode⟩

lemma popArgs (h : a.Renames f b) (count : Nat) :
    Alike (PoppedAlike f a) (a.popArgs count) (b.popArgs count) := by
  rw [Frame.popArgs, Frame.popArgs, h.stack]
  cases takeArgs count [] a.stack with
  | none => exact h.underflow ▸ .error _
  | some taken =>
      obtain ⟨injective, stray, rfl⟩ := h
      exact .ok ⟨rfl, ⟨injective, stray, rfl⟩, rfl⟩

/-- **A jump goes to the same place**, or fails with the same label. -/
lemma jump (h : a.Renames f b) {i : Instruction} (hi : i ∈ a.code) {l : Label}
    (hl : i.target? = some l) : Alike (Renames f) (a.jump l) (b.jump (l.rename f)) := by
  obtain ⟨injective, stray, rfl⟩ := h
  rw [Frame.jump, Frame.jump]
  simp only [LabelTable.lookup_rename injective]
  cases hplace : a.labels.lookup l with
  | some place => exact .ok ⟨injective, stray, rfl⟩
  | none =>
      rw [stray i hi l hl hplace]
      exact .error _

lemma jumpIf (h : a.Renames f b) {i : Instruction} (hi : i ∈ a.code) {l : Label}
    (hl : i.target? = some l) (cond : Bool) :
    Alike (Renames f) (a.jumpIf cond l) (b.jumpIf cond (l.rename f)) := by
  rw [Frame.jumpIf, Frame.jumpIf]
  cases cond with
  | true => exact h.jump hi hl
  | false => exact .ok h

end Renames

end Frame
/-! ## Classes -/

/-- A method in renamed code.  Its jumps go to labels of its own. -/
def Method.Renamed (m m' : Method) : Prop :=
  ∃ f, Function.Injective f ∧ m.code.Closed ∧ m' = m.rename f

/-- **Two classes in which the same names lead to the same methods**, in renamed code. -/
structure ClassFile.Renamed (c c' : ClassFile) : Prop where
  name : c'.name = c.name
  methods : ∀ name, Option.Rel Method.Renamed (c.method? name) (c'.method? name)
  entry : Option.Rel Method.Renamed
    (c.methods.find? fun m => m.name == "main" && m.isStatic)
    (c'.methods.find? fun m => m.name == "main" && m.isStatic)

lemma ClassFile.Renamed.resolve {c c' : ClassFile} (hc : c.Renamed c') (name : String) :
    Alike Method.Renamed (c.resolve name) (c'.resolve name) := by
  have found := hc.methods name
  rw [ClassFile.resolve, ClassFile.resolve, hc.name]
  generalize c.method? name = x at found
  generalize c'.method? name = y at found
  cases found with
  | some h => exact .ok h
  | none => exact .error _

lemma Method.Renamed.call {m m' : Method} (h : m.Renamed m') (receiver : Option Value)
    (args : List Value) (depth : Nat) (use : ResultUse) :
    Alike Frame.Renamed (Frame.call m receiver args depth use)
      (Frame.call m' receiver args depth use) := by
  obtain ⟨f, hf, ⟨⟨labels, hlabels⟩, targets⟩, rfl⟩ := h
  rw [Frame.call, Frame.call]
  split
  · exact .error _
  · simp only [Method.rename, labelTable_rename hf hlabels, hlabels]
    refine .ok ⟨f, hf, ?_, rfl⟩
    intro i hi l hl hnone
    -- a target that is not located contradicts that the code is closed
    obtain ⟨place, hplace⟩ := Array.mem_iff_getElem?.1 (targets i hi l hl)
    rw [(lookup_labelTable hlabels).2 hplace] at hnone
    cases hnone

/-! ## One instruction -/

/-- Control goes to the same place, in renamed code. -/
inductive Control.Renamed : Control → Control → Prop
  | next {a b : Frame} : a.Renamed b → Renamed (.next a) (.next b)
  | enter {a b callee callee' : Frame} : a.Renamed b → callee.Renamed callee' →
      Renamed (.enter a callee) (.enter b callee')
  | leave {a b : Frame} (result : Option Value) : a.Renamed b →
      Renamed (.leave a result) (.leave b result)

/-- Two instructions fail alike or lead to the same, and leave the same world. -/
inductive Matches : Except Fault Control × World → Except Fault Control × World → Prop
  | mk {x y : Except Fault Control} (w : World) : Alike Control.Renamed x y → Matches (x, w) (y, w)

namespace Frame.Renames

variable {f : Nat → Nat} {a b : Frame} {c c' : ClassFile}

lemma next (h : a.Renames f b) (w : World) :
    Matches (.ok (.next a), w) (.ok (.next b), w) := .mk w (.ok (.next ⟨f, h⟩))

lemma stay (f : Nat → Nat) {x y : Except Fault Frame} (w : World) (h : Alike (Renames f) x y) :
    Matches (Frame.stay w x) (Frame.stay w y) := by
  cases h with
  | error e => exact .mk w (.error e)
  | ok hab => exact hab.next w

lemma callOwn (h : a.Renames f b) (hc : c.Renamed c') (w : World) (name : String)
    (receiver : Option Value) (args : List Value) (use : ResultUse) :
    Matches (a.callOwn c w name receiver args use) (b.callOwn c' w name receiver args use) := by
  rw [Frame.callOwn, Frame.callOwn]
  rcases (hc.resolve name).eq_or with ⟨e, ha, hb⟩ | ⟨m, m', ha, hb, hm⟩
  · rw [ha, hb]
    exact .mk w (.error e)
  · simp only [ha, hb]
    rcases (hm.call receiver args w.depth use).eq_or with ⟨e, ha, hb⟩ | ⟨_, _, ha, hb, hcallee⟩
    · rw [ha, hb]
      exact .mk w (.error e)
    · rw [ha, hb]
      exact .mk (w.enter 1) (.ok (.enter ⟨f, h⟩ hcallee))

lemma callMember (h : a.Renames f b) (hc : c.Renamed c') (w : World) (name : String)
    (receiver : Option Value) (args : List Value) :
    Matches (a.callMember c w name receiver args) (b.callMember c' w name receiver args) := by
  cases receiver with
  | none => exact h.callOwn hc w name none args .ifAny
  | some this =>
      rw [Frame.callMember, Frame.callMember, hc.name]
      split
      · rcases (hc.resolve name).eq_or with ⟨e, ha, hb⟩ | ⟨m, m', ha, hb, -⟩
        · rw [ha, hb]
          exact .mk w (.error e)
        · simp only [ha, hb]
          split
          · exact .mk w (.error _)
          · exact h.callOwn hc _ name (some this) args .ifAny
      · exact h.callOwn hc w name (some this) args .ifAny

lemma callMethod (h : a.Renames f b) (hc : c.Renamed c') (w : World) (method : MethodRef)
    (receiver : Option Value) (args : List Value) :
    Matches (a.callMethod c w method receiver args) (b.callMethod c' w method receiver args) := by
  rw [Frame.callMethod, Frame.callMethod, hc.name]
  split
  · exact h.callMember hc w method.name receiver args
  · split
    · rw [Frame.callLibrary, Frame.callLibrary]
      split
      · exact .mk w (.error _)
      · exact (h.receive .ifAny _).next _
      · exact h.next _
      · exact h.callOwn hc _ _ _ _ .orNull
    · exact .mk w (.error _)

lemma invoke (h : a.Renames f b) (hc : c.Renamed c') (w : World) (kind : InvokeKind)
    (method : MethodRef) : Matches (a.invoke c w kind method) (b.invoke c' w kind method) := by
  rw [Frame.invoke, Frame.invoke]
  rcases (h.popArgs method.arity).eq_or with
    ⟨e, ha, hb⟩ | ⟨⟨args, a'⟩, ⟨args', b'⟩, ha, hb, rfl, h', -⟩
  · rw [ha, hb]
    exact .mk w (.error e)
  · simp only [ha, hb]
    split
    · exact h'.callMethod hc w method none args'
    · rcases h'.pop.eq_or with ⟨e, ha, hb⟩ | ⟨⟨v, a''⟩, ⟨v', b''⟩, ha, hb, rfl, h'', -⟩
      · rw [ha, hb]
        exact .mk w (.error e)
      · simp only [ha, hb]
        exact h''.callMethod hc w method (some v') args'

/-- **An instruction does the same in renamed code.** -/
lemma execute (h : a.Renames f b) (hc : c.Renamed c') {i : Instruction} (hi : i ∈ a.code)
    (w : World) : Matches (a.execute c i w) (b.execute c' (i.rename f) w) := by
  cases i with
  | label _ => exact h.next w
  | load slot =>
      have same : b.loadLocal slot = a.loadLocal slot := by
        rw [Frame.loadLocal, Frame.loadLocal, h.locals]
      show Matches _ (.ok (.next (b.push (b.loadLocal slot))), w)
      rw [same]
      exact (h.push _).next w
  | ldc constant => cases constant <;> exact (h.push _).next _
  | zero | new _ => exact (h.push _).next _
  | store slot =>
      refine stay f w (h.pop.bind ?_)
      rintro ⟨v, a⟩ ⟨v', b⟩ ⟨rfl, h', -⟩
      exact .ok (h'.storeLocal slot v')
  | dup =>
      refine stay f w (h.pop.bind ?_)
      rintro ⟨v, a⟩ ⟨v', b⟩ ⟨rfl, h', -⟩
      exact .ok ((h'.push v').push v')
  | pop =>
      refine stay f w (h.pop.bind ?_)
      rintro ⟨v, a⟩ ⟨v', b⟩ ⟨-, h', -⟩
      exact .ok h'
  | swap =>
      refine stay f w (h.pop.bind ?_)
      rintro ⟨v, a⟩ ⟨v', b⟩ ⟨rfl, h', -⟩
      refine h'.pop.bind ?_
      rintro ⟨u, a⟩ ⟨u', b⟩ ⟨rfl, h'', -⟩
      exact .ok ((h''.push v').push u')
  | cast owner =>
      refine stay f w (h.pop.bind ?_)
      rintro ⟨v, a'⟩ ⟨v', b'⟩ ⟨rfl, -, -⟩
      refine (alike_rfl (w.heap.checkCast owner v')).bind ?_
      intro _ _ _
      exact .ok h
  | getStatic field =>
      refine stay f w ((alike_rfl (readStatic field)).bind ?_)
      rintro v _ rfl
      exact .ok (h.push v)
  | invoke kind method => exact h.invoke hc w kind method
  | arith op =>
      refine stay f w ((h.popInt w.heap).bind ?_)
      rintro ⟨rhs, a⟩ ⟨rhs', b⟩ ⟨rfl, h', -⟩
      refine (h'.popInt w.heap).bind ?_
      rintro ⟨lhs, a⟩ ⟨lhs', b⟩ ⟨rfl, h'', -⟩
      refine (alike_rfl (op.apply lhs' rhs')).bind ?_
      rintro value _ rfl
      exact .ok (h''.push (.raw value))
  | neg =>
      refine stay f w ((h.popInt w.heap).bind ?_)
      rintro ⟨value, a⟩ ⟨value', b⟩ ⟨rfl, h', -⟩
      exact .ok (h'.push (.raw (-value')))
  | jump target => exact stay f w (h.jump hi rfl)
  | ifZero target | ifNonzero target =>
      refine stay f w ((h.popInt w.heap).bind ?_)
      rintro ⟨value, a'⟩ ⟨value', b'⟩ ⟨rfl, h', hcode⟩
      exact h'.jumpIf (hcode ▸ hi) rfl _
  | ifInt cond target =>
      refine stay f w ((h.popInt w.heap).bind ?_)
      rintro ⟨rhs, a'⟩ ⟨rhs', b'⟩ ⟨rfl, h', hcode⟩
      refine (h'.popInt w.heap).bind ?_
      rintro ⟨lhs, a''⟩ ⟨lhs', b''⟩ ⟨rfl, h'', hcode'⟩
      exact h''.jumpIf (hcode' ▸ hcode ▸ hi) rfl _
  | ifRef same target =>
      refine stay f w (h.pop.bind ?_)
      rintro ⟨rhs, a'⟩ ⟨rhs', b'⟩ ⟨rfl, h', hcode⟩
      refine h'.pop.bind ?_
      rintro ⟨lhs, a''⟩ ⟨lhs', b''⟩ ⟨rfl, h'', hcode'⟩
      exact h''.jumpIf (hcode' ▸ hcode ▸ hi) rfl _
  | ret => exact .mk w (.ok (.leave none ⟨f, h⟩))
  | retValue =>
      rcases h.pop.eq_or with ⟨e, ha, hb⟩ | ⟨⟨v, a'⟩, ⟨v', b'⟩, ha, hb, rfl, h', -⟩
      · simp only [Instruction.rename, Frame.execute, ha, hb]
        exact .mk w (.error e)
      · simp only [Instruction.rename, Frame.execute, ha, hb]
        exact .mk w (.ok (.leave (some v') ⟨f, h'⟩))

end Frame.Renames

/-! ## Runs -/

namespace Machine

/-- **Two states in renamed code.** -/
structure Renamed (m m' : Machine) : Prop where
  frame : m.frame.Renamed m'.frame
  callers : List.Forall₂ Frame.Renamed m.callers m'.callers
  world : m'.world = m.world

/-- Frames are left alike: the run is over, or the same instruction is next. -/
inductive Settled : Except (Outcome × World) (Instruction × Machine) →
    Except (Outcome × World) (Instruction × Machine) → Prop
  | ended (outcome : Outcome) (w : World) : Settled (.error (outcome, w)) (.error (outcome, w))
  | next {f : Nat → Nat} {i : Instruction} {a b : Frame} {callers callers' : List Frame}
    {w : World} :
      a.Renames f b → i ∈ a.code → List.Forall₂ Frame.Renamed callers callers' →
      Settled (.ok (i, ⟨a, callers, w⟩)) (.ok (i.rename f, ⟨b, callers', w⟩))

lemma settled_renamed {callers callers' : List Frame}
    (hcallers : List.Forall₂ Frame.Renamed callers callers') {a b : Frame} (h : a.Renamed b)
    (w : World) : Settled (settle callers a w) (settle callers' b w) := by
  induction hcallers generalizing a b w with
  | nil =>
      obtain ⟨f, h⟩ := h
      rw [settle, settle, h.next?, h.stack, h.locals]
      cases hi : a.code[a.pc]? with
      | none => exact .ended _ w
      | some i => exact .next h (Array.mem_of_getElem? hi) .nil
  | @cons caller caller' callers callers' hcaller hcallers ih =>
      obtain ⟨f, h⟩ := h
      rw [settle, settle, h.next?, h.use]
      cases hi : a.code[a.pc]? with
      | none =>
          obtain ⟨g, hcaller⟩ := hcaller
          exact ih ⟨g, hcaller.receive a.use none⟩ (w.leave 1)
      | some i => exact .next h (Array.mem_of_getElem? hi) (.cons hcaller hcallers)

/-- The states that instructions lead to are related, or both runs are over. -/
lemma follow_renamed {callers callers' : List Frame}
    (hcallers : List.Forall₂ Frame.Renamed callers callers') (w : World) {x y : Control}
    (h : x.Renamed y) :
    (∃ outcome, follow callers w x = .error outcome ∧ follow callers' w y = .error outcome) ∨
      ∃ m m', follow callers w x = .ok m ∧ follow callers' w y = .ok m' ∧ m.Renamed m' := by
  cases h with
  | next hframe => exact .inr ⟨_, _, rfl, rfl, hframe, hcallers, rfl⟩
  | enter hcaller hcallee => exact .inr ⟨_, _, rfl, rfl, hcallee, .cons hcaller hcallers, rfl⟩
  | leave result hframe =>
      obtain ⟨f, h⟩ := hframe
      cases hcallers with
      | nil => exact .inl ⟨_, rfl, by rw [follow, h.stack, h.locals]⟩
      | cons hcaller hcallers =>
          obtain ⟨g, hcaller⟩ := hcaller
          refine .inr ⟨_, _, rfl, rfl, ⟨g, ?_⟩, hcallers, rfl⟩
          show Frame.Renames g _ (Frame.receive _ _ result)
          rw [h.use]
          exact hcaller.receive _ result

/-- **Runs of related states are equal.** -/
theorem run_renamed {c c' : ClassFile} (hc : c.Renamed c') (limit budget taken : Nat)
    {m m' : Machine} (hm : m.Renamed m') :
    run c' limit budget taken m' = run c limit budget taken m := by
  induction budget generalizing taken m m' with
  | zero =>
      have settled := settled_renamed hm.callers hm.frame m.world
      rw [run, run, hm.world]
      generalize settle m.callers m.frame m.world = x at settled
      generalize settle m'.callers m'.frame m.world = y at settled
      cases settled with
      | ended outcome w => rfl
      | next _ _ hcallers => simp [hcallers.length_eq]
  | succ budget ih =>
      have settled := settled_renamed hm.callers hm.frame m.world
      rw [run, run, hm.world]
      generalize settle m.callers m.frame m.world = x at settled
      generalize settle m'.callers m'.frame m.world = y at settled
      cases settled with
      | ended outcome w => rfl
      | @next f i a b callers callers' w h hi hcallers =>
          have executed := h.advanced.execute hc hi w
          rw [Frame.advanced, Frame.advanced] at executed
          simp only
          generalize Frame.execute c i _ w = x at executed
          generalize Frame.execute c' _ _ w = y at executed
          cases executed with
          | mk w hcontrol =>
              cases hcontrol with
              | error e => simp [hcallers.length_eq]
              | ok hcontrol =>
                  rcases follow_renamed hcallers w hcontrol with
                    ⟨outcome, hx, hy⟩ | ⟨next, next', hx, hy, hnext⟩
                  · simp only [hx, hy]
                  · simp only [hx, hy]
                    exact ih _ hnext

end Machine

/-! ## Requests -/

lemma Frame.renamed_refl (a : Frame) : a.Renamed a := by
  refine ⟨id, Function.injective_id, fun _ _ _ _ _ => rfl, ?_⟩
  rw [Code.rename_id, LabelTable.rename_id]

namespace Session

variable {c c' : ClassFile}

/-- Requests open related frames. -/
lemma firstFrame_renamed (hc : c.Renamed c') (limit : Nat) (world : World) (steps : Nat)
    (request : Request) : Alike Frame.Renamed
      ((⟨c, limit, world, steps⟩ : Session).firstFrame request)
      ((⟨c', limit, world, steps⟩ : Session).firstFrame request) := by
  cases request with
  | main =>
      have found := hc.entry
      simp only [firstFrame]
      generalize c.methods.find? _ = x at found
      generalize c'.methods.find? _ = y at found
      cases found with
      | none => exact .error _
      | some hm => exact hm.call none [.null] world.depth .ifAny
  | invoke receiver name args =>
      exact (hc.resolve name).bind fun _ _ hm => hm.call (some receiver) args world.depth .ifAny
  | fragment code locals =>
      show Alike _ (Frame.fragment code locals) (Frame.fragment code locals)
      cases Frame.fragment code locals with
      | error e => exact .error e
      | ok frame => exact .ok frame.renamed_refl

/-- **Every request is answered alike**: with the same result, the same world and after the same
number of steps. -/
theorem ending_renamed (hc : c.Renamed c') (limit : Nat) (world : World) (steps : Nat)
    (request : Request) :
    ending ((⟨c', limit, world, steps⟩ : Session).answer request) =
      ending ((⟨c, limit, world, steps⟩ : Session).answer request) := by
  rw [answer_eq_start, answer_eq_start]
  rcases (firstFrame_renamed hc limit world steps request).eq_or with
    ⟨e, ha, hb⟩ | ⟨a, b, ha, hb, hframe⟩
  · rw [ha, hb]
    rfl
  · have hmachine : Machine.Renamed ⟨a, [], world.enter request.calls⟩
        ⟨b, [], world.enter request.calls⟩ := ⟨hframe, .nil, rfl⟩
    have same := Machine.run_renamed hc limit (limit - steps) steps hmachine
    rw [ha, hb]
    simp only [ending, start, runFrame, same]

end Session

end StackBackend
