import StackBackend.Proofs.Lowering.Shape.Expression
import StackBackend.Proofs.Storage.Points

/-!
# Arrays that are being filled

A list literal and a call both put the values of expressions into a new array, one after another.
While they do, the array stands in a slot of the frame and nowhere else, so the code of the
expressions cannot reach it.  Items of list type are copied first: the list that will hold the copy
is made before the expression is evaluated, and is out of its reach as well.

* `Point.Fills` — a frame that is filling an array, seen from outside and from inside: `hidden` is
  what the frame must not see, `made` adds the array and the copies in it;
* `passing_array`, `passing_add`, `passing_openCopy`, `passing_closeCopy`, `passing_wrap` — the
  pieces of code that make an array, add to it, copy a list and put a list around the array.
-/

namespace StackBackend

open Heap

namespace Point

variable {hidden kept same made : Set Nat} {p p₀ q : Point} {slot a : Nat} {items : Array Value}

/-! ## Clear points -/

/-- A point stays clear when operands come and go and the heap turns. -/
lemma Clear.move (h : p.Clear hidden kept) {w : World} (hsealed : w.heap.Sealed hidden)
    (hgrows : p.world.heap.objects.size ≤ w.heap.objects.size) (pc : Nat) {stack : List Value}
    (hstack : ∀ v ∈ stack, v ∈ p.stack ∨ w.heap.Sees ∅ v) :
    Clear hidden kept ⟨pc, stack, p.locals, w⟩ where
  sealed := hsealed
  stack v hv := (hstack v hv).elim (fun hv => (h.stack v hv).mono hgrows subset_rfl) id
  held slot := (h.held slot).mono hgrows subset_rfl
  locals slot hslot := (h.locals slot hslot).mono hgrows subset_rfl

/-! ## Filling -/

/-- **A frame that is filling an array.** -/
structure Fills (hidden kept same made : Set Nat) (p₀ : Point) (slot a : Nat) (items : Array Value)
    (p : Point) : Prop where
  later : p₀.Later hidden kept same p
  clear : p.Clear made (insert slot kept)
  hides : hidden ⊆ made
  mem : a ∈ made
  shown : a ∉ hidden
  fresh : ∀ x ∈ made, x ∈ hidden ∨ p₀.world.heap.objects.size ≤ x
  slot : p.locals[slot]?.getD .null = .ref a
  items : p.world.heap.get? a = some (.array items)
  loose : p.world.heap.Loose a

/-- **Code that does not see the array** leaves it as it is. -/
lemma Fills.evolve (h : p₀.Fills hidden kept same made slot a items p)
    (hlater : p.Later made (insert slot kept) (insert slot same) q) :
    p₀.Fills hidden kept same made slot a items q := by
  have there := lt_size_of_get? h.items
  have guards : q.world.heap.Guards hidden :=
    h.later.clear.sealed.guards.reveal hlater.clear.sealed.guards hlater.kept h.hides
      h.clear.sealed.bounded
  have slot_eq : q.locals[slot]?.getD .null = .ref a :=
    (hlater.same slot (Set.mem_insert ..)).trans h.slot
  refine ⟨⟨⟨⟨hlater.clear.sealed.grounded, guards, ?_⟩, hlater.clear.stack, hlater.clear.held, ?_⟩,
    h.later.kept.trans (hlater.kept.mono h.hides), ?_⟩, hlater.clear, h.hides, h.mem, h.shown,
    h.fresh,
    slot_eq, ?_, hlater.kept.loose hlater.clear.sealed.guards h.mem h.clear.sealed.bounded h.loose⟩
  · exact fun x hx => hlater.clear.sealed.bounded x (h.hides hx)
  · intro other hother
    by_cases hsame : other = slot
    · rw [hsame, slot_eq]
      exact sees_ref.2 ⟨Nat.lt_of_lt_of_le there hlater.kept.grows, h.shown⟩
    · exact (hlater.clear.locals other (by simp [hsame, hother])).mono (Nat.le_refl _) h.hides
  · exact fun other hother => (hlater.same other (Set.mem_insert_of_mem _ hother)).trans
      (h.later.same other hother)
  · exact (hlater.kept.hides h.mem there).trans h.items

/-- Operands come and go. -/
lemma Fills.move (h : p₀.Fills hidden kept same made slot a items p) (pc : Nat) {stack : List Value}
    (hstack : ∀ v ∈ stack, v ∈ p.stack ∨ p.world.heap.Sees ∅ v) :
    p₀.Fills hidden kept same made slot a items ⟨pc, stack, p.locals, p.world⟩ :=
  ⟨⟨h.later.clear.move h.later.clear.sealed (Nat.le_refl _) pc hstack, h.later.kept, h.later.same⟩,
    h.clear.move h.clear.sealed (Nat.le_refl _) pc hstack, h.hides, h.mem, h.shown, h.fresh, h.slot,
    h.items, h.loose⟩

/-- The heap turns, and what is new in it may be hidden. -/
lemma Fills.turn (h : p₀.Fills hidden kept same made slot a items p) {heap : Heap} {made' : Set Nat}
    {items' : Array Value} (hturns : Turns hidden .null p.world.heap heap) (hsub : made ⊆ made')
    (hfresh : ∀ x ∈ made', x ∈ made ∨ p.world.heap.objects.size ≤ x) (hguards : heap.Guards made')
    (hbounded : ∀ x ∈ made', x < heap.objects.size) (hitems : heap.get? a = some (.array items'))
    (hloose : heap.Loose a) (pc : Nat) {stack : List Value}
    (hstack : ∀ v ∈ stack, v ∈ p.stack ∨ heap.Sees ∅ v) :
    p₀.Fills hidden kept same made' slot a items'
      ⟨pc, stack, p.locals, { p.world with heap }⟩ := by
  have clear : Clear hidden kept ⟨pc, stack, p.locals, { p.world with heap }⟩ :=
    h.later.clear.move hturns.sealed hturns.kept.grows pc hstack
  refine ⟨⟨clear, h.later.kept.trans hturns.kept, h.later.same⟩,
    ⟨⟨hturns.sealed.grounded, hguards, hbounded⟩, clear.stack, clear.held, fun other hother => ?_⟩,
    h.hides.trans hsub, hsub h.mem, h.shown, fun x hx => ?_, h.slot, hitems, hloose⟩
  · exact ((h.clear.locals other hother).hide hfresh).mono hturns.kept.grows subset_rfl
  · rcases hfresh x hx with hx | hx
    · exact h.fresh x hx
    · exact .inr (Nat.le_trans h.later.kept.grows hx)

/-- **Something is added to the array.** -/
lemma Fills.push (h : p₀.Fills hidden kept same made slot a items p) (pc : Nat) (stack : List Value)
    {v : Value} (hv : p.world.heap.Sees hidden v)
    (hstack : ∀ v ∈ stack, v ∈ p.stack ∨ p.world.heap.Sees ∅ v) :
    p₀.Fills hidden kept same made slot a (items.push v) ⟨pc, stack, p.locals,
      { p.world with heap := p.world.heap.set a (.array (items.push v)) }⟩ := by
  have turns : Turns hidden .null p.world.heap (p.world.heap.set a (.array (items.push v))) :=
    turns_push h.later.clear.sealed h.items h.shown h.loose hv
  refine h.turn turns subset_rfl (fun x hx => .inl hx)
    (h.clear.sealed.guards.set h.items fun hn => absurd h.mem hn)
    (h.clear.sealed.bounded_of_kept turns.kept) (by simp [get?_set h.items]) (fun l hl => ?_) pc
    fun v hv => (hstack v hv).imp_right fun hv => hv.mono (by rw [size_set]) subset_rfl
  rw [get?_set h.items] at hl
  split at hl
  · simp at hl
  · exact h.loose l hl

/-- A new object that holds nothing is out of reach at first. -/
lemma Fills.make (h : p₀.Fills hidden kept same made slot a items p) (owner : String) (pc : Nat)
    (stack : List Value) (hstack : ∀ v ∈ stack, v ∈ p.stack ∨ v = .ref p.world.heap.objects.size) :
    p₀.Fills hidden kept same (insert p.world.heap.objects.size made) slot a items
      ⟨pc, stack, p.locals, { p.world with heap := (p.world.heap.alloc (.uninit owner)).2 }⟩ := by
  have turns : Turns hidden .null p.world.heap (p.world.heap.alloc (.uninit owner)).2 :=
    turns_alloc h.later.clear.sealed (by simp [Obj.values]) (by simp)
  have fresh : ∀ x ∈ insert p.world.heap.objects.size made,
      x ∈ made ∨ p.world.heap.objects.size ≤ x := by
    rintro x (rfl | hx)
    · exact .inr (Nat.le_refl _)
    · exact .inl hx
  refine h.turn turns (Set.subset_insert ..) fresh
    ((h.clear.sealed.guards.hide (Set.subset_insert ..) fresh).alloc (by simp [Obj.values])) ?_ ?_
    ?_ pc fun v hv => (hstack v hv).imp_right ?_
  · rintro x (rfl | hx)
    · simp [size_alloc]
    · exact h.clear.sealed.bounded_of_kept turns.kept x hx
  · exact get?_alloc_of_get? h.items _
  · intro l hl
    rw [get?_alloc] at hl
    split at hl
    · simp at hl
    · exact h.loose l hl
  · rintro rfl
    simp [size_alloc]

/-- A list that was out of reach is put around a copy, which is out of reach as well. -/
lemma Fills.copy (h : p₀.Fills hidden kept same made slot a items p) {l : Nat} {owner : String}
    (hl : l ∈ made) (hshown : l ∉ hidden) (hold : p.world.heap.get? l = some (.uninit owner))
    {copied : Array Value} (hcopied : ∀ v ∈ copied.toList, p.world.heap.Sees made v) (pc : Nat)
    {stack : List Value} (hstack : ∀ v ∈ stack, v ∈ p.stack) :
    p₀.Fills hidden kept same (insert p.world.heap.objects.size made) slot a items
      ⟨pc, stack, p.locals, { p.world with heap := p.world.heap.wrapCopy l copied }⟩ := by
  have turns : Turns hidden .null p.world.heap (p.world.heap.wrapCopy l copied) :=
    turns_copy h.later.clear.sealed hold hshown fun v hv =>
      (hcopied v hv).mono (Nat.le_refl _) h.hides
  have fresh : ∀ x ∈ insert p.world.heap.objects.size made,
      x ∈ made ∨ p.world.heap.objects.size ≤ x := by
    rintro x (rfl | hx)
    · exact .inr (Nat.le_refl _)
    · exact .inl hx
  have there := lt_size_of_get? h.items
  have waiting : (p.world.heap.alloc (.array copied)).2.get? l = some (.uninit owner) := by
    rw [get?_alloc, if_neg (Nat.ne_of_lt (lt_size_of_get? hold)), hold]
  have apart : a ≠ l := by
    rintro rfl
    simp [h.items] at hold
  refine h.turn turns (Set.subset_insert ..) fresh
    (((h.clear.sealed.guards.hide (Set.subset_insert ..) fresh).alloc
      fun hn => absurd (Set.mem_insert ..) hn).set waiting
      fun hn => absurd (Set.mem_insert_of_mem _ hl) hn) ?_ ?_ ?_ pc fun v hv => .inl (hstack v hv)
  · rintro x (rfl | hx)
    · simp [wrapCopy, size_alloc, size_set]
    · exact h.clear.sealed.bounded_of_kept turns.kept x hx
  · rw [wrapCopy, get?_set waiting, if_neg apart, get?_alloc, if_neg (Nat.ne_of_lt there), h.items]
  · intro l' hl'
    rw [wrapCopy, get?_set waiting] at hl'
    split at hl'
    · obtain rfl : p.world.heap.objects.size = a := by simpa using hl'
      exact Nat.lt_irrefl _ there
    · rw [get?_alloc] at hl'
      split at hl'
      · simp at hl'
      · exact h.loose l' hl'

end Point

/-! ## Pieces of code -/

namespace Site

open Lowering Point

variable {s : Site} {hidden kept same made : Set Nat} {p p₀ : Point} {slot a n : Nat}
  {items : Array Value}

/-- A call on a receiver that is done with a result, or without one. -/
lemma execute_done {kind : InvokeKind} (hkind : kind ≠ .static) {m : LibraryMethod} {this : Value}
    {heap : Heap} {result : Option Value} {pc : Nat} {before after stack : List Value}
    {locals : Array Value} {w : World} (args : List Value) (hargs : args.length = m.arity)
    (h : m.perform w.heap this args = .ok (.done result, heap))
    (hbefore : before = args.reverse ++ this :: stack) (hafter : after = result.toList ++ stack) :
    (s.frame ⟨pc, before, locals, w⟩).advanced.execute s.classFile (.invoke kind m.ref) w
      = (.ok (.next (s.frame ⟨pc + 1, after, locals, { w with heap }⟩)), { w with heap }) := by
  subst hbefore hafter
  rw [Frame.execute_receiver hkind (s.apart m) hargs rfl, Frame.callLibrary, Option.getD_some, h]
  cases result <;> rfl

/-- **A new array is put into a slot.** -/
lemma passing_array (hclear : p.Clear hidden kept) (hhas : s.Has p.pc (arrayCode slot))
    (hslot : slot ∉ same) :
    s.Passing p.pc (p.pc + 4) n p fun q => q.pc = p.pc + 4 ∧ q.stack = p.stack ∧
      p.Fills hidden kept same (insert p.world.heap.objects.size hidden) slot
        p.world.heap.objects.size #[] q := by
  obtain ⟨pc, stack, locals, w⟩ := p
  simp only [arrayCode, has_cons, has_nil, and_true] at hhas ⊢
  obtain ⟨hnew, hdup, hinit, hstore⟩ := hhas
  have perform : LibraryMethod.arrayInit.perform (w.heap.alloc (.uninit ClassName.array)).2
      (.ref w.heap.objects.size) [] = .ok (.done none, (w.heap.alloc (.array #[])).2) := by
    simp [LibraryMethod.perform, construct_alloc, bind, Except.bind]
  refine passing_known (hclear.arrives same) hnew rfl (Nat.le_refl _) (by simp) (by simp)
    (Nat.le_refl _) (by simp) ⟨pc + 1, .ref w.heap.objects.size :: stack, locals,
      { w with heap := (w.heap.alloc (.uninit ClassName.array)).2 }⟩ rfl fun h₁ => ?_
  refine passing_known h₁ hdup rfl (Nat.le_refl _) (by simp) (by simp) (by simp) (by simp)
    ⟨pc + 2, .ref w.heap.objects.size :: .ref w.heap.objects.size :: stack, locals,
      { w with heap := (w.heap.alloc (.uninit ClassName.array)).2 }⟩ rfl fun h₂ => ?_
  refine passing_known h₂ hinit rfl (by decide) (by simp [Instruction.construct])
    (by simp [Instruction.construct]) (by simp) (by simp)
    ⟨pc + 3, .ref w.heap.objects.size :: stack, locals,
      { w with heap := (w.heap.alloc (.array #[])).2 }⟩
    (execute_done (by decide) [] rfl perform rfl rfl) fun h₃ => ?_
  refine passing_known h₃ hstore rfl (Nat.le_refl 1) (by simp) (by simpa using hslot) (by simp)
    (by simp)
    ⟨pc + 4, stack, writeLocal locals slot (.ref w.heap.objects.size),
      { w with heap := (w.heap.alloc (.array #[])).2 }⟩ ?_ fun h₄ => .here ⟨rfl, rfl, ?_⟩
  · simp [Frame.execute, Frame.stay, Frame.pop, Frame.advanced, frame, bind, Except.bind,
      Except.map, Frame.storeLocal_eq]
  · have fresh : w.heap.objects.size ∉ hidden :=
      fun hhidden => Nat.lt_irrefl _ (hclear.sealed.bounded _ hhidden)
    have hfresh : ∀ x ∈ insert w.heap.objects.size hidden,
        x ∈ hidden ∨ w.heap.objects.size ≤ x := by
      rintro x (rfl | hx)
      · exact .inr (Nat.le_refl _)
      · exact .inl hx
    refine ⟨h₄.later, ⟨⟨h₄.later.clear.sealed.grounded, ?_, ?_⟩, h₄.later.clear.stack,
      h₄.later.clear.held, fun other hother => ?_⟩, Set.subset_insert .., Set.mem_insert .., fresh,
      hfresh,
      by simp [getD_writeLocal], by simp, hclear.sealed.loose_alloc (by simp)⟩
    · exact (hclear.sealed.guards.hide (Set.subset_insert ..) hfresh).alloc (by simp [Obj.values])
    · rintro x (rfl | hx)
      · simp [size_alloc]
      · exact h₄.later.clear.sealed.bounded x hx
    · obtain ⟨other_ne, other_kept⟩ : other ≠ slot ∧ other ∉ kept := by simpa using hother
      show (w.heap.alloc (.array #[])).2.Sees _
        ((writeLocal locals slot (.ref w.heap.objects.size))[other]?.getD .null)
      rw [getD_writeLocal, if_neg other_ne]
      exact ((hclear.locals other other_kept).hide hfresh).mono (by simp [size_alloc]) subset_rfl

/-- The array is fetched from its slot. -/
lemma passing_fetch {lo hi : Nat} {Q : Point → Prop}
    (h : p₀.Fills hidden kept same made slot a items p) (hcode : s.code[p.pc]? = some (.load slot))
    (hlo : lo ≤ p.pc) (hhi : p.pc < hi)
    (hnext : p₀.Fills hidden kept same made slot a items
        ⟨p.pc + 1, .ref a :: p.stack, p.locals, p.world⟩ →
      s.Passing lo hi (n - 1) ⟨p.pc + 1, .ref a :: p.stack, p.locals, p.world⟩ Q) :
    s.Passing lo hi n p Q := by
  refine .exact hcode hlo hhi (sound_of_clear h.clear hcode (by simp [Instruction.IsLibrary])
    (by simp [Frame.filled])) ?_ (hnext (h.move _ ?_))
  · rw [← h.slot]
    rfl
  · have there := lt_size_of_get? h.items
    simp +contextual [there]

/-- **A value is added to the array.** -/
lemma passing_add (h : p₀.Fills hidden kept same made slot a items p)
    (hhas : s.Has p.pc [.callVirtual .arrayAdd, .pop]) {v : Value} {rest : List Value}
    (hstack : p.stack = v :: .ref a :: rest) (hv : p.world.heap.Sees hidden v) :
    s.Passing p.pc (p.pc + 2) n p fun q => q.pc = p.pc + 2 ∧ q.stack = rest ∧
      p₀.Fills hidden kept same made slot a (items.push v) q ∧
      Kept (made \ {a}) p.world.heap q.world.heap := by
  obtain ⟨pc, _, locals, w⟩ := p
  subst hstack
  simp only [has_cons, has_nil, and_true] at hhas
  obtain ⟨hadd, hpop⟩ := hhas
  have perform : LibraryMethod.arrayAdd.perform w.heap (.ref a) [v]
      = .ok (.done (some (.raw 1)), w.heap.set a (.array (items.push v))) := by
    simp [LibraryMethod.perform, dereference, h.items]
  have added := h.push (pc + 1) (.raw 1 :: rest) hv (by simp +contextual [Heap.Sees])
  refine .exact hadd (Nat.le_refl _) (by simp) (sound_of_clear h.clear hadd ?_ ?_)
    (execute_done (by decide) [v] rfl perform rfl rfl) ?_
  · rintro _ _ ⟨⟩
    exact ⟨_, rfl⟩
  · simpa [Frame.filled, Instruction.callVirtual, LibraryMethod.resolve?_ref, frame] using h.loose
  · refine .exact hpop (by simp) (by simp) (sound_of_clear added.clear hpop
      (by simp [Instruction.IsLibrary]) (by simp [Frame.filled]))
      (q := ⟨pc + 2, rest, locals, _⟩) rfl
        (.here ⟨rfl, rfl, added.move _ (by simp +contextual), ?_⟩)
    exact kept_set h.items (by simp) rfl fun _ _ => .inl h.loose

/-- The list that will hold a copy is made. -/
lemma passing_openCopy (h : p₀.Fills hidden kept same made slot a items p)
    (hhas : s.Has p.pc [.new ClassName.list, .dup]) :
    s.Passing p.pc (p.pc + 2) n p fun q =>
      q = ⟨p.pc + 2, .ref p.world.heap.objects.size :: .ref p.world.heap.objects.size :: p.stack,
        p.locals, { p.world with heap := (p.world.heap.alloc (.uninit ClassName.list)).2 }⟩ ∧
      p₀.Fills hidden kept same (insert p.world.heap.objects.size made) slot a items q := by
  simp only [has_cons, has_nil, and_true] at hhas
  obtain ⟨hnew, hdup⟩ := hhas
  have made₁ := h.make ClassName.list (p.pc + 1) (.ref p.world.heap.objects.size :: p.stack)
    (by simp +contextual)
  have made₂ := h.make ClassName.list (p.pc + 2)
    (.ref p.world.heap.objects.size :: .ref p.world.heap.objects.size :: p.stack)
    (by simp +contextual)
  refine .exact hnew (Nat.le_refl _) (by simp) (sound_of_clear h.clear hnew
    (by simp [Instruction.IsLibrary]) (by simp [Frame.filled]))
    (q := ⟨p.pc + 1, _, p.locals, _⟩) rfl ?_
  exact .exact hdup (by simp) (by simp) (sound_of_clear made₁.clear hdup
    (by simp [Instruction.IsLibrary]) (by simp [Frame.filled]))
    (q := ⟨p.pc + 2, _, p.locals, _⟩) rfl
    (.here ⟨rfl, made₂⟩)

/-- **A list is copied**, if it is one. -/
lemma passing_closeCopy (h : p₀.Fills hidden kept same made slot a items p)
    (hcode : s.code[p.pc]? = some (.construct .listCopy)) {v : Value} {l : Nat} {rest : List Value}
    {owner : String} (hstack : p.stack = v :: .ref l :: rest)
    (hold : p.world.heap.get? l = some (.uninit owner)) :
    s.Passing p.pc (p.pc + 1) n p fun q => ∃ copied, p.world.heap.items? v = some copied ∧
      q = ⟨p.pc + 1, rest, p.locals, { p.world with heap := p.world.heap.wrapCopy l copied }⟩ := by
  obtain ⟨pc, _, locals, w⟩ := p
  subst hstack
  have sound := sound_of_clear h.clear hcode (by rintro _ _ ⟨⟩; exact ⟨_, rfl⟩)
    (by simp [Frame.filled, Instruction.construct, LibraryMethod.resolve?_ref])
  cases hitems : w.heap.items? v with
  | none =>
      refine .step hcode (Nat.le_refl _) (by simp) sound fun control w' _ hexec => ?_
      obtain ⟨fault, fails⟩ : ∃ fault,
          LibraryMethod.listCopy.perform w.heap (.ref l) [v] = .error fault := by
        cases hlist : w.heap.listItems v (w.heap.mismatch ClassName.list v) with
        | ok items => simp [listItems_eq_ok.1 hlist] at hitems
        | error fault => exact ⟨fault, by simp [LibraryMethod.perform, hlist, bind, Except.bind]⟩
      have one : [v].length = LibraryMethod.listCopy.arity := rfl
      rw [Instruction.construct, Frame.execute_receiver (by decide) (s.apart _) one rfl,
        Frame.callLibrary, Option.getD_some, fails] at hexec
      simp at hexec
  | some copied =>
      exact .exact hcode (Nat.le_refl _) (by simp) sound
        (execute_done (by decide) [v] rfl (perform_listCopy hold hitems) rfl rfl)
        (.here ⟨copied, rfl, rfl⟩)

/-- **A list is put around the array**, which is then in reach. -/
lemma passing_wrap (h : p₀.Fills hidden kept same made slot a items p) (hslot : slot ∉ kept)
    (hhas : s.Has p.pc (wrapCode slot)) :
    s.Passing p.pc (p.pc + 4) n p fun q => p₀.Later hidden kept same q ∧ q.pc = p.pc + 4 ∧
      ∃ l, q.stack = .ref l :: p.stack ∧ q.world.heap.Sees hidden (.ref l) := by
  obtain ⟨pc, stack, locals, w⟩ := p
  simp only [wrapCode, has_cons, has_nil, and_true] at hhas
  obtain ⟨hnew, hdup, hload, hinit⟩ := hhas
  have there := lt_size_of_get? h.items
  have start : p₀.Arrives hidden kept same pc stack 0 ⟨pc, stack, locals, w⟩ :=
    ⟨h.later, rfl, [], rfl, rfl, by simp⟩
  have fresh : w.heap.objects.size ∉ hidden :=
    fun hhidden => Nat.lt_irrefl _ (h.later.clear.sealed.bounded _ hhidden)
  refine passing_known start hnew rfl (Nat.le_refl _) (by simp) (by simp) (Nat.le_refl _) (by simp)
    ⟨pc + 1, .ref w.heap.objects.size :: stack, locals,
      { w with heap := (w.heap.alloc (.uninit ClassName.list)).2 }⟩ rfl fun h₁ => ?_
  refine passing_known h₁ hdup rfl (Nat.le_refl _) (by simp) (by simp) (by simp) (by simp)
    ⟨pc + 2, .ref w.heap.objects.size :: .ref w.heap.objects.size :: stack, locals,
      { w with heap := (w.heap.alloc (.uninit ClassName.list)).2 }⟩ rfl fun h₂ => ?_
  refine passing_known h₂ hload rfl (Nat.zero_le _) (by simpa using hslot) (by simp) (by simp)
    (by simp)
    ⟨pc + 3, .ref a :: .ref w.heap.objects.size :: .ref w.heap.objects.size :: stack, locals,
      { w with heap := (w.heap.alloc (.uninit ClassName.list)).2 }⟩ ?_ fun h₃ => ?_
  · rw [← h.slot]
    rfl
  have waiting : (w.heap.alloc (.uninit ClassName.list)).2.get? w.heap.objects.size
      = some (.uninit ClassName.list) := by simp
  have array : (w.heap.alloc (.uninit ClassName.list)).2.get? a = some (.array items) := by
    rw [get?_alloc, if_neg (Nat.ne_of_lt there), h.items]
  have loose : (w.heap.alloc (.uninit ClassName.list)).2.Loose a := by
    intro l hl
    rw [get?_alloc] at hl
    split at hl
    · simp at hl
    · exact h.loose l hl
  have wrapped : Turns hidden .null (w.heap.alloc (.uninit ClassName.list)).2
      ((w.heap.alloc (.uninit ClassName.list)).2.set w.heap.objects.size (.list (.ref a))) :=
    turns_wrap h₃.later.clear.sealed waiting fresh array h.shown loose
  have perform : LibraryMethod.listInit.perform (w.heap.alloc (.uninit ClassName.list)).2
      (.ref w.heap.objects.size) [.ref a] = .ok (.done none,
        (w.heap.alloc (.uninit ClassName.list)).2.set w.heap.objects.size (.list (.ref a))) := by
    simp [LibraryMethod.perform, object?, array, construct_of_uninit waiting, bind, Except.bind]
  refine .exact hinit (by simp) (by simp) (sound_of_clear h₃.later.clear hinit ?_ ?_)
    (execute_done (by decide) [.ref a] rfl perform rfl rfl) (.here ?_)
  · rintro _ _ ⟨⟩
    exact ⟨_, rfl⟩
  · simpa [Frame.filled, Instruction.construct, LibraryMethod.resolve?_ref, frame] using loose
  · refine ⟨⟨h₃.later.clear.move wrapped.sealed wrapped.kept.grows _ ?_,
      h₃.later.kept.trans wrapped.kept, h₃.later.same⟩, rfl, _, rfl, ?_⟩
    · simp +contextual
    · simp [size_set, size_alloc, fresh]

end Site

end StackBackend
