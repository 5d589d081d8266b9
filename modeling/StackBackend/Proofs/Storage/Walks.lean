import StackBackend.Proofs.Lowering.Sequences
import StackBackend.Proofs.Machine.Transitions
import StackBackend.Proofs.Storage.Operators

/-!
# Runs in one frame

A run that has come through a piece of code without leaving its frame has carried out the
instructions of the code one by one, so it can be taken apart along the code.

* `Executes s i p q` — the instruction `i` has been carried out at `p` and has led to `q`;
* `Ran s code p q` — the instructions of a sequence have been carried out, one after another;
* `Walks s hi p q` — a run in its frame, by instructions that stand before `hi`;
* `Walks.ran`, `Walks.truth` — what such a run does first, if a straight sequence or the two
  branches of a truth value stand there.

The lemmas `Executes.…` say of an instruction what its operands have been and where it has led.
-/

namespace StackBackend

open Heap

namespace Site

variable {s : Site} {p q r : Point} {i : Instruction} {code more rest : List Instruction} {hi : Nat}

/-! ## Instructions that have been carried out -/

/-- **An instruction is carried out** at a point, and leads to another point of the frame. -/
def Executes (s : Site) (i : Instruction) (p q : Point) : Prop :=
  (s.frame p).advanced.execute s.classFile i p.world = (.ok (.next (s.frame q)), q.world)

lemma machine_inj (h : s.machine p = s.machine q) : p = q := by
  obtain ⟨_, _, _, _⟩ := p
  obtain ⟨_, _, _, _⟩ := q
  simp only [machine, frame, Machine.mk.injEq, Frame.mk.injEq] at h
  grind

namespace Executes

variable {stack : List Value} {v v' : Value} {x y : Int32}

lemma unique (h : s.Executes i p q) (h' : s.Executes i p r) : q = r := by
  obtain ⟨hframe, hworld⟩ : s.frame q = s.frame r ∧ q.world = r.world := by
    simpa [Executes] using h.symm.trans h'
  have same : s.machine q = s.machine r := by rw [machine, machine, hframe, hworld]
  exact machine_inj same

/-- Control goes on behind the instruction, or at the label that it names. -/
lemma place (h : s.Executes i p q) :
    q.pc = p.pc + 1 ∨ ∃ l, i.target? = some l ∧ s.code[q.pc]? = some (.label l) := by
  cases Frame.execute_transition h with
  | next hcontinues =>
      rcases hcontinues.place with hpc | ⟨l, htarget, hlookup⟩
      · exact .inl hpc
      · exact .inr ⟨l, htarget, (lookup_labelTable s.located).1 hlookup⟩

/-- A jump always goes to its label. -/
lemma jump {l : Label} (h : s.Executes (.jump l) p q) : s.code[q.pc]? = some (.label l) := by
  obtain ⟨f, hf, hnext, -⟩ := Frame.stay_ok h
  obtain rfl := Control.next.inj hnext
  rw [Frame.jump] at hf
  split at hf
  · next pc hpc =>
      have place : pc = q.pc := congrArg Frame.pc (Except.ok.inj hf)
      rw [← place]
      exact (lookup_labelTable s.located).1 hpc
  · cases hf

/-- A branch takes its operands, and does nothing else. -/
lemma branch (h : s.Executes i p q) {l : Label} (htarget : i.target? = some l) :
    q = ⟨q.pc, p.stack.drop i.pops, p.locals, p.world⟩ := by
  have jumped : ∀ {f : Frame} {cond : Bool} {l : Label} {stack : List Value},
      Frame.jumpIf { (s.frame p).advanced with stack } cond l = .ok f →
      Control.next (s.frame q) = .next f → q.world = p.world →
      q = ⟨q.pc, stack, p.locals, p.world⟩ := by
    intro f cond l stack hjump hnext hworld
    obtain ⟨pc, rfl⟩ : ∃ pc, f = { (s.frame p).advanced with stack, pc } := by
      simp only [Frame.jumpIf, Frame.jump] at hjump
      split at hjump
      · split at hjump
        · exact ⟨_, (Except.ok.inj hjump).symm⟩
        · cases hjump
      · exact ⟨_, (Except.ok.inj hjump).symm⟩
    obtain ⟨_, _, _, _⟩ := q
    simp only [frame, Frame.advanced, Control.next.injEq, Frame.mk.injEq] at hnext hworld
    simp [hnext, hworld]
  cases i with
  | jump target =>
      obtain ⟨f, hf, hnext, hworld⟩ := Frame.stay_ok h
      have hjump : Frame.jumpIf { (s.frame p).advanced with stack := p.stack } true target =
        .ok f := hf
      exact jumped hjump hnext hworld
  | ifZero target | ifNonzero target =>
      obtain ⟨f, hf, hnext, hworld⟩ := Frame.stay_ok h
      obtain ⟨⟨x, f'⟩, hpop, hjump⟩ := bind_ok hf
      obtain ⟨v, rest, hstack, rfl⟩ := Frame.popInt_ok hpop
      have dropped : p.stack.drop 1 = rest := by
        rw [show p.stack = v :: rest from hstack, List.drop_one, List.tail_cons]
      rw [Instruction.pops, dropped]
      exact jumped hjump hnext hworld
  | ifInt cond target =>
      obtain ⟨f, hf, hnext, hworld⟩ := Frame.stay_ok h
      obtain ⟨⟨x, f'⟩, hpop, hrest⟩ := bind_ok hf
      obtain ⟨v, rest, hstack, rfl⟩ := Frame.popInt_ok hpop
      obtain ⟨⟨x', f'⟩, hpop', hjump⟩ := bind_ok hrest
      obtain ⟨v', rest', hstack', rfl⟩ := Frame.popInt_ok hpop'
      obtain rfl : rest = v' :: rest' := hstack'
      rw [show p.stack = v :: v' :: rest' from hstack]
      exact jumped hjump hnext hworld
  | ifRef same target =>
      obtain ⟨f, hf, hnext, hworld⟩ := Frame.stay_ok h
      obtain ⟨⟨x, f'⟩, hpop, hrest⟩ := bind_ok hf
      obtain ⟨rest, hstack, rfl⟩ := Frame.pop_ok hpop
      obtain ⟨⟨x', f'⟩, hpop', hjump⟩ := bind_ok hrest
      obtain ⟨rest', hstack', rfl⟩ := Frame.pop_ok hpop'
      obtain rfl : rest = x' :: rest' := hstack'
      rw [show p.stack = x :: x' :: rest' from hstack]
      exact jumped hjump hnext hworld
  | _ => simp [Instruction.target?] at htarget

lemma load {slot : Nat} (h : s.Executes (.load slot) p q) :
    q = ⟨p.pc + 1, p.locals[slot]?.getD .null :: p.stack, p.locals, p.world⟩ :=
  h.unique rfl

lemma int (h : s.Executes (.ldc (.int x)) p q) :
    q = ⟨p.pc + 1, .raw x :: p.stack, p.locals, p.world⟩ :=
  h.unique rfl

lemma text {content : String} (h : s.Executes (.ldc (.str content)) p q) :
    q = ⟨p.pc + 1, .text p.world.heap.texts content :: p.stack, p.locals,
      { p.world with heap := { p.world.heap with texts := p.world.heap.texts + 1 } }⟩ :=
  h.unique rfl

lemma zero (h : s.Executes .zero p q) : q = ⟨p.pc + 1, .raw 0 :: p.stack, p.locals, p.world⟩ :=
  h.unique rfl

lemma dup (h : s.Executes .dup p q) (hstack : p.stack = v :: stack) :
    q = ⟨p.pc + 1, v :: v :: stack, p.locals, p.world⟩ := by
  obtain ⟨pc, _, locals, w⟩ := p
  subst hstack
  exact h.unique rfl

lemma swap (h : s.Executes .swap p q) (hstack : p.stack = v :: v' :: stack) :
    q = ⟨p.pc + 1, v' :: v :: stack, p.locals, p.world⟩ := by
  obtain ⟨pc, _, locals, w⟩ := p
  subst hstack
  exact h.unique rfl

/-- A cast leaves everything as it is. -/
lemma cast {owner : String} (h : s.Executes (.cast owner) p q) : q = { p with pc := p.pc + 1 } := by
  obtain ⟨f, hf, hnext, hworld⟩ := Frame.stay_ok h
  obtain ⟨⟨v, f'⟩, -, hcast⟩ := bind_ok hf
  obtain ⟨-, -, hframe⟩ := bind_ok hcast
  obtain rfl := Except.ok.inj hframe
  have framed : s.frame q = (s.frame p).advanced := Control.next.inj hnext
  refine h.unique ?_
  rw [Executes, h, framed, hworld]
  rfl

/-- Arithmetic takes two raw integers. -/
lemma arith {op : IntOp} (h : s.Executes (.arith op) p q)
    (hstack : p.stack = .raw y :: .raw x :: stack) :
    ∃ z, op.apply x y = .ok z ∧ q = ⟨p.pc + 1, .raw z :: stack, p.locals, p.world⟩ := by
  obtain ⟨pc, _, locals, w⟩ := p
  subst hstack
  cases hz : op.apply x y with
  | ok z =>
      refine ⟨z, rfl, h.unique ?_⟩
      simp only [Executes, Frame.execute, Frame.stay, Frame.popInt, Frame.pop, rawInt,
        Frame.advanced, frame]
      simp [bind, Except.bind, hz, Except.map, Frame.push]
  | error fault =>
      simp only [Executes, Frame.execute, Frame.stay, Frame.popInt, Frame.pop, rawInt,
        Frame.advanced, frame] at h
      simp [bind, Except.bind, hz, Except.map] at h

lemma neg (h : s.Executes .neg p q) (hstack : p.stack = .raw x :: stack) :
    q = ⟨p.pc + 1, .raw (-x) :: stack, p.locals, p.world⟩ := by
  obtain ⟨pc, _, locals, w⟩ := p
  subst hstack
  exact h.unique rfl

lemma label {l : Label} (h : s.Executes (.label l) p q) :
    q = ⟨p.pc + 1, p.stack, p.locals, p.world⟩ :=
  h.unique rfl

lemma new {owner : String} (h : s.Executes (.new owner) p q) :
    q = ⟨p.pc + 1, .ref p.world.heap.objects.size :: p.stack, p.locals,
      { p.world with heap := (p.world.heap.alloc (.uninit owner)).2 }⟩ :=
  h.unique rfl

lemma pop (h : s.Executes .pop p q) (hstack : p.stack = v :: stack) :
    q = ⟨p.pc + 1, stack, p.locals, p.world⟩ := by
  obtain ⟨pc, _, locals, w⟩ := p
  subst hstack
  exact h.unique rfl

lemma store {slot : Nat} (h : s.Executes (.store slot) p q) (hstack : p.stack = v :: stack) :
    q = ⟨p.pc + 1, stack, writeLocal p.locals slot v, p.world⟩ := by
  obtain ⟨pc, _, locals, w⟩ := p
  subst hstack
  refine h.unique ?_
  simp [Executes, Frame.execute, Frame.stay, Frame.pop, Frame.advanced, frame, bind, Except.bind,
    Except.map, Frame.storeLocal_eq]

/-- **A value is made of a raw integer.** -/
lemma box {m : LibraryMethod} (h : s.Executes (.callStatic m) p q)
    (hstack : p.stack = .raw x :: stack) (hargs : m.arity = 1)
    (hmade : ∀ heap, m.perform heap .null [.raw x] = .ok (.done (some v), heap)) :
    q = ⟨p.pc + 1, v :: stack, p.locals, p.world⟩ := by
  obtain ⟨pc, _, locals, w⟩ := p
  subst hstack
  refine h.unique ?_
  have hargs : [Value.raw x].length = m.arity := hargs.symm
  have hpopped : .raw x :: stack = [Value.raw x].reverse ++ stack := rfl
  rw [Executes, Instruction.callStatic, Frame.execute_static (s.apart _) hargs hpopped,
    Frame.callLibrary, Option.getD_none, hmade]
  rfl

lemma boxInt (h : s.Executes (.callStatic .integerValueOf) p q)
    (hstack : p.stack = .raw x :: stack) : q = ⟨p.pc + 1, .integer x :: stack, p.locals, p.world⟩ :=
  h.box hstack rfl fun _ => rfl

lemma boxBool (h : s.Executes (.callStatic .booleanValueOf) p q)
    (hstack : p.stack = .raw x :: stack) :
    q = ⟨p.pc + 1, .boolean (x != 0) :: stack, p.locals, p.world⟩ :=
  h.box hstack rfl fun _ => rfl

/-- **A call on a receiver has been performed**, and what it has given is on the stack. -/
lemma done {kind : InvokeKind} {m : LibraryMethod} (h : s.Executes (.invoke kind m.ref) p q)
    (hkind : kind ≠ .static) (args : List Value) (hargs : args.length = m.arity) {this : Value}
    {result : Option Value} {heap : Heap}
    (hperform : m.perform p.world.heap this args = .ok (.done result, heap))
    (hstack : p.stack = args.reverse ++ this :: stack) :
    q = ⟨p.pc + 1, result.toList ++ stack, p.locals, { p.world with heap }⟩ := by
  obtain ⟨pc, _, locals, w⟩ := p
  exact h.unique (execute_done hkind args hargs hperform hstack rfl)

/-- Whatever a call on a receiver was to give, it has given. -/
lemma call {kind : InvokeKind} {m : LibraryMethod} (h : s.Executes (.invoke kind m.ref) p q)
    (hkind : kind ≠ .static) (args : List Value) (hargs : args.length = m.arity) {this : Value}
    (hstack : p.stack = args.reverse ++ this :: stack) :
    ∃ reply heap, m.perform p.world.heap this args = .ok (reply, heap) ∧
      ∀ result, reply = .done result →
        q = ⟨p.pc + 1, result.toList ++ stack, p.locals, { p.world with heap }⟩ := by
  cases hperform : m.perform p.world.heap this args with
  | error fault =>
      rw [Executes, Frame.execute_receiver hkind (s.apart m) hargs hstack, Frame.callLibrary] at h
      simp [hperform] at h
  | ok answer =>
      obtain ⟨reply, heap⟩ := answer
      refine ⟨reply, heap, rfl, ?_⟩
      rintro result rfl
      exact h.done hkind args hargs hperform hstack

/-- Only an integer can be unboxed as one. -/
lemma intValue (h : s.Executes (.callVirtual .intValue) p q) (hstack : p.stack = v :: stack) :
    ∃ x, v = .integer x ∧ q = ⟨p.pc + 1, .raw x :: stack, p.locals, p.world⟩ := by
  obtain ⟨reply, heap, hperform, hdone⟩ := h.call (by decide) [] rfl hstack
  cases v with
  | integer x =>
      obtain ⟨rfl, rfl⟩ : .done (some (.raw x)) = reply ∧ p.world.heap = heap := by
        simpa [LibraryMethod.perform] using hperform
      exact ⟨x, rfl, hdone _ rfl⟩
  | _ => simp [LibraryMethod.perform] at hperform

/-- An item is taken out of the array behind a list. -/
lemma listGet (h : s.Executes (.callVirtual .listGet) p q)
    (hstack : p.stack = .raw x :: v :: stack) :
    ∃ b items place, p.world.heap.backing v = .ok (b, items) ∧ position items x = .ok place ∧
      q = ⟨p.pc + 1, items[place]?.getD .null :: stack, p.locals, p.world⟩ := by
  obtain ⟨reply, heap, hperform, hdone⟩ := h.call (by decide) [.raw x] rfl hstack
  obtain ⟨index, hindex, hrest⟩ := bind_ok hperform
  obtain rfl : x = index := by simpa [rawInt] using hindex
  obtain ⟨⟨b, items⟩, hbacking, hrest⟩ := bind_ok hrest
  obtain ⟨place, hplace, hlast⟩ := bind_ok hrest
  obtain ⟨rfl, rfl⟩ : .done (some (items[place]?.getD .null)) = reply ∧ p.world.heap = heap := by
    simpa using hlast
  exact ⟨b, items, place, hbacking, hplace, hdone _ rfl⟩

/-- An item is replaced in the array behind a list. -/
lemma listSet (h : s.Executes (.callVirtual .listSet) p q)
    (hstack : p.stack = v' :: .raw x :: v :: stack) :
    ∃ b items place, p.world.heap.backing v = .ok (b, items) ∧ position items x = .ok place ∧
      q = ⟨p.pc + 1, stack, p.locals,
        { p.world with heap := p.world.heap.set b (.array (items.setIfInBounds place v')) }⟩ := by
  obtain ⟨reply, heap, hperform, hdone⟩ := h.call (by decide) [.raw x, v'] rfl hstack
  obtain ⟨index, hindex, hrest⟩ := bind_ok hperform
  obtain rfl : x = index := by simpa [rawInt] using hindex
  obtain ⟨⟨b, items⟩, hbacking, hrest⟩ := bind_ok hrest
  obtain ⟨place, hplace, hlast⟩ := bind_ok hrest
  obtain ⟨rfl, rfl⟩ : .done none = reply ∧
      p.world.heap.set b (.array (items.setIfInBounds place v')) = heap := by
    simpa using hlast
  exact ⟨b, items, place, hbacking, hplace, hdone _ rfl⟩

lemma listSize (h : s.Executes (.callVirtual .listSize) p q) (hstack : p.stack = v :: stack) :
    ∃ items, p.world.heap.items? v = some items ∧
      q = ⟨p.pc + 1, .raw (Int32.ofNat items.size) :: stack, p.locals, p.world⟩ := by
  obtain ⟨reply, heap, hperform, hdone⟩ := h.call (by decide) [] rfl hstack
  obtain ⟨items, hitems, hlast⟩ := bind_ok hperform
  obtain ⟨rfl, rfl⟩ : .done (some (.raw (Int32.ofNat items.size))) = reply ∧
      p.world.heap = heap := by
    simpa using hlast
  exact ⟨items, listItems_eq_ok.1 hitems, hdone _ rfl⟩

lemma stringLength (h : s.Executes (.callVirtual .stringLength) p q)
    (hstack : p.stack = v :: stack) : ∃ ident text, v = .text ident text ∧
      q = ⟨p.pc + 1, .raw (Int32.ofNat text.length) :: stack, p.locals, p.world⟩ := by
  obtain ⟨reply, heap, hperform, hdone⟩ := h.call (by decide) [] rfl hstack
  obtain ⟨text, htext, hlast⟩ := bind_ok hperform
  obtain ⟨ident, rfl⟩ : ∃ ident, v = .text ident text := by
    cases v with
    | text ident content => exact ⟨ident, by simpa [receiverText] using htext⟩
    | _ => simp [receiverText] at htext
  obtain ⟨rfl, rfl⟩ : .done (some (.raw (Int32.ofNat text.length))) = reply ∧
      p.world.heap = heap := by
    simpa using hlast
  exact ⟨ident, text, rfl, hdone _ rfl⟩

lemma booleanValue (h : s.Executes (.callVirtual .booleanValue) p q)
    (hstack : p.stack = v :: stack) : ∃ x, q = ⟨p.pc + 1, .raw x :: stack, p.locals, p.world⟩ := by
  obtain ⟨reply, heap, hperform, hdone⟩ := h.call (by decide) [] rfl hstack
  cases v with
  | boolean b =>
      obtain ⟨rfl, rfl⟩ : _ = reply ∧ p.world.heap = heap := by
        simpa [LibraryMethod.perform] using hperform
      exact ⟨_, hdone _ rfl⟩
  | _ => simp [LibraryMethod.perform] at hperform

lemma stringEquals (h : s.Executes (.callVirtual .stringEquals) p q)
    (hstack : p.stack = v' :: v :: stack) :
    ∃ x, q = ⟨p.pc + 1, .raw x :: stack, p.locals, p.world⟩ := by
  obtain ⟨reply, heap, hperform, hdone⟩ := h.call (by decide) [v'] rfl hstack
  obtain ⟨text, -, hlast⟩ := bind_ok hperform
  obtain ⟨rfl, rfl⟩ : _ = reply ∧ p.world.heap = heap := by simpa using hlast
  exact ⟨_, hdone _ rfl⟩

/-- A list that has been made before is put around a copy of the items of another. -/
lemma listCopy {l : Nat} {owner : String} (h : s.Executes (.construct .listCopy) p q)
    (hstack : p.stack = v :: .ref l :: stack) (hold : p.world.heap.get? l = some (.uninit owner)) :
    ∃ items, p.world.heap.items? v = some items ∧
      q = ⟨p.pc + 1, stack, p.locals, { p.world with heap := p.world.heap.wrapCopy l items }⟩ := by
  obtain ⟨reply, heap, hperform, -⟩ := h.call (by decide) [v] rfl hstack
  obtain ⟨items, hitems, -⟩ := bind_ok hperform
  have found := listItems_eq_ok.1 hitems
  exact ⟨items, found, h.done (by decide) [v] rfl (perform_listCopy hold found) hstack⟩

/-- A value is added to an array. -/
lemma arrayAdd {a : Nat} {items : Array Value} (h : s.Executes (.callVirtual .arrayAdd) p q)
    (hstack : p.stack = v :: .ref a :: stack) (hitems : p.world.heap.get? a = some (.array items)) :
    q = ⟨p.pc + 1, .raw 1 :: stack, p.locals,
      { p.world with heap := p.world.heap.set a (.array (items.push v)) }⟩ := by
  have performed : LibraryMethod.arrayAdd.perform p.world.heap (.ref a) [v]
      = .ok (.done (some (.raw 1)), p.world.heap.set a (.array (items.push v))) := by
    simp [LibraryMethod.perform, dereference, hitems]
  exact h.done (by decide) [v] rfl performed hstack

end Executes

/-! ## Sequences -/

/-- **A sequence of instructions is carried out.** -/
inductive Ran (s : Site) : List Instruction → Point → Point → Prop
  | nil {p : Point} : Ran s [] p p
  | cons {i : Instruction} {rest : List Instruction} {p q r : Point} :
      s.Executes i p q → Ran s rest q r → Ran s (i :: rest) p r

lemma ran_nil : s.Ran [] p q ↔ q = p := by
  constructor
  · intro h
    cases h
    rfl
  · rintro rfl
    exact .nil

lemma ran_cons : s.Ran (i :: rest) p r ↔ ∃ q, s.Executes i p q ∧ s.Ran rest q r := by
  constructor
  · intro h
    cases h with
    | cons hi hrest => exact ⟨_, hi, hrest⟩
  · rintro ⟨q, hi, hrest⟩
    exact .cons hi hrest

lemma ran_append : s.Ran (code ++ more) p r ↔ ∃ q, s.Ran code p q ∧ s.Ran more q r := by
  induction code generalizing p with
  | nil => simp [ran_nil]
  | cons i rest ih =>
      simp only [List.cons_append, ran_cons, ih]
      constructor
      · rintro ⟨q, hi, q', hrest, hmore⟩
        exact ⟨q', ⟨q, hi, hrest⟩, hmore⟩
      · rintro ⟨q', ⟨q, hi, hrest⟩, hmore⟩
        exact ⟨q, hi, q', hrest, hmore⟩

/-! ### Fixed sequences -/

section Fixed

open Lowering

lemma ran_downcast {ty : Ty} (h : s.Ran (downcast ty) p q) : q = { p with pc := q.pc } := by
  rw [downcast] at h
  split at h
  · obtain ⟨r, hcast, hr⟩ := ran_cons.1 h
    rw [ran_nil.1 hr, hcast.cast]
  · rw [ran_nil.1 h]

lemma ran_elementCode {ty : Ty} (h : s.Ran (elementCode ty) p q) : q = { p with pc := q.pc } := by
  rw [elementCode] at h
  split at h
  · rw [ran_nil.1 h]
  · exact ran_downcast h

lemma ran_unboxing {ty : Ty} {v : Value} {stack : List Value} (h : s.Ran (unboxing ty) p q)
    (hstack : p.stack = v :: stack) : ∃ w, q = ⟨q.pc, w :: stack, p.locals, p.world⟩ := by
  cases ty with
  | int =>
      simp only [unboxing, ran_cons, ran_nil] at h
      obtain ⟨a, hunbox, rfl⟩ := h
      obtain ⟨x, -, rfl⟩ := hunbox.intValue hstack
      exact ⟨_, rfl⟩
  | bool =>
      simp only [unboxing, ran_cons, ran_nil] at h
      obtain ⟨a, hunbox, rfl⟩ := h
      obtain ⟨x, rfl⟩ := hunbox.booleanValue hstack
      exact ⟨_, rfl⟩
  | _ =>
      obtain rfl := ran_nil.1 h
      exact ⟨v, by rw [← hstack]⟩

lemma ran_closure {name : String} (h : s.Ran (closureCode name) p q) :
    q = ⟨q.pc, .ref p.world.heap.objects.size :: p.stack, p.locals,
      { p.world with heap := ({ p.world.heap with texts := p.world.heap.texts + 1 }.alloc
        (.closure (p.locals[0]?.getD .null) name)).2 }⟩ := by
  simp only [closureCode, ran_cons, ran_nil] at h
  obtain ⟨a, hnew, b, hdup, c, hload, d, htext, e, hinit, rfl⟩ := h
  obtain rfl := hnew.new
  obtain rfl := hdup.dup rfl
  obtain rfl := hload.load
  obtain rfl := htext.text
  have performed := perform_closure { p.world.heap with texts := p.world.heap.texts + 1 }
    (p.locals[0]?.getD .null) p.world.heap.texts name
  rw [hinit.done (by decide) [p.locals[0]?.getD .null, .text p.world.heap.texts name] rfl performed
    rfl]
  rfl

lemma ran_array {slot : Nat} (h : s.Ran (arrayCode slot) p q) :
    q = ⟨q.pc, p.stack, writeLocal p.locals slot (.ref p.world.heap.objects.size),
      { p.world with heap := (p.world.heap.alloc (.array #[])).2 }⟩ := by
  simp only [arrayCode, ran_cons, ran_nil] at h
  obtain ⟨a, hnew, b, hdup, c, hinit, d, hstore, rfl⟩ := h
  obtain rfl := hnew.new
  obtain rfl := hdup.dup rfl
  obtain rfl := hinit.done (by decide) [] rfl (perform_array p.world.heap) rfl
  rw [hstore.store rfl]

lemma ran_wrap {slot array : Nat} {items : Array Value} (h : s.Ran (wrapCode slot) p q)
    (hslot : p.locals[slot]?.getD .null = .ref array)
    (harray : p.world.heap.get? array = some (.array items)) :
    q = ⟨q.pc, .ref p.world.heap.objects.size :: p.stack, p.locals,
      { p.world with heap := (p.world.heap.alloc (.list (.ref array))).2 }⟩ := by
  simp only [wrapCode, ran_cons, ran_nil] at h
  obtain ⟨a, hnew, b, hdup, c, hload, d, hinit, rfl⟩ := h
  obtain rfl := hnew.new
  obtain rfl := hdup.dup rfl
  have loaded := hload.load
  rw [hslot] at loaded
  subst loaded
  rw [hinit.done (by decide) [.ref array] rfl (perform_wrap harray) rfl]
  rfl

end Fixed

/-! ## Runs -/

/-- **A run in its frame**, by instructions that stand before `hi`. -/
inductive Walks (s : Site) (hi : Nat) : Point → Point → Prop
  | refl {p : Point} : Walks s hi p p
  | step {p q r : Point} {i : Instruction} : p.pc < hi → s.code[p.pc]? = some i → s.Executes i p q →
      Walks s hi q r → Walks s hi p r

/-- A run that stays in its frame is one. -/
lemma walks_of_runs {lo n : Nat}
    (h : Machine.Runs s.classFile (s.Along lo hi) (s.machine p) n (s.machine q)) :
    s.Walks hi p q := by
  have walks : ∀ {m n m'}, Machine.Runs s.classFile (s.Along lo hi) m n m' → m' = s.machine q →
      ∀ p, m = s.machine p → s.Walks hi p q := by
    intro m n m' h
    induction h with
    | refl =>
        rintro rfl p hp
        rw [machine_inj hp]
        exact .refl
    | @move _ m₁ _ _ _ halong hmove hrest ih =>
        rintro rfl p rfl
        obtain ⟨r, hr, -, hhi⟩ := halong
        obtain rfl := machine_inj hr
        obtain ⟨r, rfl⟩ : ∃ r, m₁ = s.machine r := by
          cases hrest with
          | refl => exact ⟨q, rfl⟩
          | move halong' _ _ =>
              obtain ⟨r, hr, -, -⟩ := halong'
              exact ⟨r, hr⟩
        generalize hnext : s.machine r = m' at hmove
        cases hmove with
        | @execute _ i control w hi hexec hfollow =>
            subst hnext
            cases control with
            | next f =>
                obtain ⟨rfl, -, rfl⟩ := Machine.mk.inj (Except.ok.inj hfollow)
                exact .step hhi hi hexec (ih rfl r rfl)
            | enter caller callee =>
                have callers := congrArg Machine.callers (Except.ok.inj hfollow)
                simp [machine] at callers
            | leave f result =>
                change Machine.follow s.callers w (.leave f result) = .ok (s.machine r) at hfollow
                cases hcallers : s.callers with
                | nil => simp [Machine.follow, hcallers] at hfollow
                | cons caller callers =>
                    rw [hcallers] at hfollow
                    have fewer := congrArg Machine.callers (Except.ok.inj hfollow)
                    simp [machine, hcallers] at fewer
        | fall _ hcallers =>
            have fewer : s.callers = _ := congrArg Machine.callers hnext
            have callers : s.callers = _ := hcallers
            simp [fewer] at callers
  exact walks h rfl p rfl

variable {d e : Nat}

/-- At `hi` it is over. -/
lemma Walks.eq_of_le (h : s.Walks hi p q) (hle : hi ≤ p.pc) : q = p := by
  cases h with
  | refl => rfl
  | step hlt _ _ _ => omega

/-- A run that gets to `hi` carries out the next instruction. -/
lemma Walks.next (h : s.Walks hi p q) (hq : hi ≤ q.pc) {pc : Nat} (hcode : s.code[pc]? = some i)
    (hpc : p.pc = pc) (hhi : pc < hi) : ∃ r, s.Executes i p r ∧ s.Walks hi r q := by
  subst hpc
  cases h with
  | refl => omega
  | step _ hcode' hexec hrest =>
      obtain rfl := Option.some.inj (hcode.symm.trans hcode')
      exact ⟨_, hexec, hrest⟩

/-- **A run through a straight sequence** carries out the sequence first. -/
lemma Walks.ran (h : s.Walks hi p q) (hq : hi ≤ q.pc) (hhas : s.Has p.pc code)
    (hdepth : StackProfile.straightDepth? d code = some e) (hhi : p.pc + code.length ≤ hi) :
    ∃ r, s.Ran code p r ∧ r.pc = p.pc + code.length ∧ s.Walks hi r q := by
  induction code generalizing p d with
  | nil => exact ⟨p, .nil, rfl, h⟩
  | cons i rest ih =>
      obtain ⟨hcode, hrest⟩ := has_cons.1 hhas
      rw [List.length_cons] at hhi ⊢
      obtain ⟨a, hexec, ha⟩ := h.next hq hcode rfl (by omega)
      rw [StackProfile.straightDepth?] at hdepth
      split at hdepth
      · next hstraight =>
          have target : i.target? = none := by
            have straight := hstraight.1
            simp only [Instruction.isStraight_eq, Bool.and_eq_true, Option.isNone_iff_eq_none]
              at straight
            exact straight.1.1
          have place : a.pc = p.pc + 1 := by
            rcases hexec.place with hpc | ⟨l, hl, -⟩
            · exact hpc
            · simp [target] at hl
          obtain ⟨r, hran, hr, hwalks⟩ := ih ha (place ▸ hrest) hdepth (by omega)
          exact ⟨r, .cons hexec hran, by omega, hwalks⟩
      · cases hdepth

/-- **A run through the two branches of a truth value** leaves one in the place of the operands. -/
lemma Walks.truth {branch : Label → Instruction} {n k : Nat}
    (htarget : ∀ l, (branch l).target? = some l) (hpops : ∀ l, (branch l).pops = k)
    (h : s.Walks hi p q) (hq : hi ≤ q.pc) (hhas : s.Has p.pc (Lowering.truthCode branch n))
    (hhi : p.pc + 8 ≤ hi) :
    ∃ b, s.Walks hi ⟨p.pc + 8, .boolean b :: p.stack.drop k, p.locals, p.world⟩ q := by
  simp only [Lowering.truthCode, has_cons, has_nil, and_true] at hhas
  obtain ⟨hbranch, hzero, hbox, hjump, hlabel, hone, hbox', hend⟩ := hhas
  have boxed : ∀ {x : Int32} {a : Point} {pc : Nat}, s.code[pc]? = some (.ldc (.int x)) →
      s.code[pc + 1]? = some (.callStatic .booleanValueOf) → a.pc = pc → pc + 2 ≤ hi →
      s.Walks hi a q → s.Walks hi ⟨pc + 2, .boolean (x != 0) :: a.stack, a.locals, a.world⟩ q := by
    intro x a pc hldc hcall hpc hle ha
    subst hpc
    obtain ⟨a₁, hpush, ha₁⟩ := ha.next hq hldc rfl (by omega)
    obtain rfl := hpush.int
    obtain ⟨a₂, hbox, ha₂⟩ := ha₁.next hq hcall rfl (by omega)
    obtain rfl := hbox.boxBool rfl
    exact ha₂
  -- both ways end at the second label, with the truth value on top
  have joined : ∀ {a : Point}, a.pc = p.pc + 7 → s.Walks hi a q →
      s.Walks hi ⟨p.pc + 8, a.stack, a.locals, a.world⟩ q := by
    intro a hpc ha
    obtain ⟨b, hpassed, hb⟩ := ha.next hq hend hpc (by omega)
    rw [hpassed.label, hpc] at hb
    exact hb
  obtain ⟨a, hexec, ha⟩ := h.next hq hbranch rfl (by omega)
  have branched := hexec.branch (htarget _)
  rw [hpops] at branched
  rcases hexec.place with hpc | ⟨l, hl, hplace⟩
  · rw [hpc] at branched
    subst branched
    have pushed := boxed hzero hbox rfl (by omega) ha
    obtain ⟨b, hexec', hb⟩ := pushed.next hq hjump rfl (by omega)
    have jumped := hexec'.branch rfl
    have last := joined (Lowering.label_unique hexec'.jump hend) hb
    rw [jumped] at last
    exact ⟨_, last⟩
  · obtain rfl : ⟨n⟩ = l := by simpa [htarget] using hl
    rw [Lowering.label_unique hplace hlabel] at branched
    subst branched
    obtain ⟨b, hpassed, hb⟩ := ha.next hq hlabel rfl (by omega)
    obtain rfl := hpassed.label
    exact ⟨_, joined rfl (boxed hone hbox' rfl (by omega) hb)⟩

end Site

end StackBackend
