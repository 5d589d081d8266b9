import StackBackend.Proofs.Storage.Calls
import StackBackend.Proofs.Storage.Operators

/-!
# Expressions keep to what they see

The code of an expression, if a run ever completes it, has left its value on the stack, and has
changed nothing that is hidden from it: neither the arrays that are being filled around it nor their
slots.  Calls in it may run for long; they are what the bound on the number of steps is for.

* `Site.Computes` — code that does so;
* `Site.Gathered`, `Site.Gathers` — how the elements of a list or the arguments of a call get into
  their array: one after another, each computed once, lists as copies;
* `ExprCode.computes`, `ElementsCode.packs` — the code of every expression does;
* `ExprCode.performs` — the code of a call gathers its arguments, calls the method and leaves its
  result.
-/

namespace StackBackend

open Heap

namespace Lowering

/-! ## Slots of arrays -/

/-- The array of a list literal is in no slot that the literal must leave alone. -/
lemma not_spared_literal {slots : Slots} {depth literals slot : Nat} {names : List String}
    (hslot : slots.get? (.listLiteral literals) = some slot) :
    slot ∉ Spared slots depth literals names := by
  rintro ((⟨number, hlt, hslot'⟩ | ⟨callee, nesting, -, hslot'⟩) | ⟨name, -, hslot'⟩)
  · obtain rfl : literals = number := by simpa using Slots.get?_inj hslot hslot'
    omega
  · simpa using Slots.get?_inj hslot hslot'
  · simpa using Slots.get?_inj hslot hslot'

/-- The array of a call is in no slot that the call must leave alone. -/
lemma not_spared_args {slots : Slots} {depth literals slot : Nat} {names : List String}
    {callee : String} (hslot : slots.get? (.callArgs callee depth) = some slot) :
    slot ∉ Spared slots depth literals names := by
  rintro ((⟨number, -, hslot'⟩ | ⟨callee', nesting, hlt, hslot'⟩) | ⟨name, -, hslot'⟩)
  · simpa using Slots.get?_inj hslot hslot'
  · obtain ⟨-, rfl⟩ : callee = callee' ∧ depth = nesting := by
      simpa using Slots.get?_inj hslot hslot'
    omega
  · simpa using Slots.get?_inj hslot hslot'

/-- The code that adds the value of an expression to the array in a slot. -/
def addCode (slot : Nat) (ty : Ty) (code : List Instruction) : List Instruction :=
  .load slot :: openCopy ty ++ code ++ closeCopy ty ++ [.callVirtual .arrayAdd, .pop]

/-- The code of a call, of the code that pushes the callee and the code that packs the arguments. -/
def callCode (slot : Nat) (ret : Ty) (first code : List Instruction) : List Instruction :=
  first ++ arrayCode slot ++ code ++ [.load slot, .callVirtual .closureInvoke] ++ resultCode ret

end Lowering

namespace Site

open Lowering Point

/-- **Code that computes** something of a height, and keeps to what it sees. -/
def Computes (s : Site) (slots : Slots) (depth literals : Nat) (names : List String) (n pc : Nat)
    (code : List Instruction) (height : Nat) : Prop :=
  ∀ k ≤ n, ∀ (hidden kept same : Set Nat) (p : Point), p.pc = pc →
    (∀ slot ∈ kept, Typing.Reserved slots depth literals slot) →
    same ⊆ Spared slots depth literals names → p.Clear hidden kept →
    s.Passing pc (pc + code.length) k p
      (p.Arrives hidden kept same (pc + code.length) p.stack height)

/-! ## Elements -/

/-- **How a value is handed over**: as it is, or, if it is annotated as a list, as a list of its
own.  That list is made before the value is computed and is not initialized until then, and the
array that it gets is made after, with the items that the value has. -/
def Handed (ty : Ty) (before after final : Heap) (v v' : Value) : Prop :=
  if ty.isList then ∃ l b items, v' = .ref l ∧ before.objects.size ≤ l ∧
    after.get? l = some (.uninit ClassName.list) ∧ after.objects.size ≤ b ∧
    after.items? v = some items ∧ final.get? l = some (.list (.ref b)) ∧
    final.get? b = some (.array items)
  else v' = v

/-- **An element gets into its array**: its code is run through once, and leaves `v`; what is added
to the array is `v'`.  What comes before and after calls no method. -/
inductive Gathered (s : Site) (ty : Ty) (code : List Instruction) (final : Heap) (p : Point)
    (v' : Value) (q : Point) : Prop
  | mk {a b : Point} {v : Value} {i j k : Nat} :
      a.pc = p.pc + 1 + (openCopy ty).length → s.Has a.pc code →
      Machine.Runs s.classFile (s.Along p.pc a.pc) (s.machine p) i (s.machine a) →
      Machine.Runs s.classFile (s.Inside a.pc b.pc) (s.machine a) j (s.machine b) →
      b.pc = a.pc + code.length → b.stack = v :: a.stack →
      Handed ty p.world.heap b.world.heap final v v' →
      Machine.Runs s.classFile (s.Along b.pc q.pc) (s.machine b) k (s.machine q) →
      q.pc = b.pc + (closeCopy ty).length + 2 → Gathered s ty code final p v' q

/-- **Elements get into their array one after another.** -/
inductive Gathers (s : Site) (env : Env) (scope : ScopeId) (depth : Nat) (final : Heap) :
    List Expr → Point → List Value → Point → Prop
  | nil {p : Point} : Gathers s env scope depth final [] p [] p
  | cons {e : Expr} {rest : List Expr} {code : List Instruction} {t u : Supply} {p q r : Point}
      {v : Value} {vs : List Value} : ExprCode env scope depth t e code u →
      s.Gathered e.ty code final p v q → Gathers s env scope depth final rest q vs r →
      Gathers s env scope depth final (e :: rest) p (v :: vs) r

/-- The code that adds a value to an array stands at a place, and ends at another. -/
structure HasAdd (s : Site) (pc slot : Nat) (ty : Ty) (code : List Instruction) (top : Nat) :
    Prop where
  opening : s.Has pc (.load slot :: openCopy ty)
  value : s.Has (pc + 1 + (openCopy ty).length) code
  closing : s.Has (pc + 1 + (openCopy ty).length + code.length)
    (closeCopy ty ++ [.callVirtual .arrayAdd, .pop])
  top : top = pc + 1 + (openCopy ty).length + code.length + (closeCopy ty).length + 2

lemma hasAdd_addCode {s : Site} {pc slot : Nat} {ty : Ty} {code : List Instruction}
    (h : s.Has pc (addCode slot ty code)) :
    s.HasAdd pc slot ty code (pc + (addCode slot ty code).length) := by
  have parts := h
  rw [addCode, List.append_assoc, List.append_assoc] at parts
  obtain ⟨hopening, hrest⟩ := has_append.1 parts
  rw [List.length_cons, ← Nat.add_assoc, Nat.add_right_comm, has_append] at hrest
  refine ⟨hopening, hrest.1, hrest.2, ?_⟩
  simp only [addCode, List.length_append, List.length_cons, List.length_nil]
  omega

lemma staysPut_openCopy (slot : Nat) (ty : Ty) :
    (.load slot :: openCopy ty).all Instruction.staysPut = true := by
  cases hty : ty.isList <;> simp [openCopy, hty, Instruction.staysPut]

lemma staysPut_closeCopy (ty : Ty) :
    (closeCopy ty ++ [Instruction.callVirtual .arrayAdd, .pop]).all Instruction.staysPut
      = true := by
  cases hty : ty.isList <;>
    simp [closeCopy, hty, Instruction.callVirtual, Instruction.construct, Instruction.staysPut]

section Element

variable {s : Site} {slots : Slots} {depth literals n slot a top : Nat} {names : List String}
  {hidden kept same made : Set Nat} {p p₀ : Point} {items : Array Value} {code : List Instruction}
  {ty : Ty}

/-- **One element more is in the array**: what was hidden before is unchanged, and the copies in the
array are hidden. -/
def Adds (s : Site) (hidden kept same made : Set Nat) (p₀ : Point) (slot a : Nat)
    (items : Array Value) (ty : Ty) (code : List Instruction) (p q : Point) : Prop :=
  q.stack = p.stack ∧ ∃ grown v, p₀.Fills hidden kept same grown slot a (items.push v) q ∧
    made ⊆ grown ∧ Kept (made \ {a}) p.world.heap q.world.heap ∧
    ∀ final, Kept (grown \ {a}) q.world.heap final → s.Gathered ty code final p v q

/-- An element is gathered: something is opened for it, its value is computed, and what was opened
is closed. -/
lemma passing_gathered (Opened : Set Nat → Point → Prop)
    (hopen : s.Passing p.pc (p.pc + 1 + (openCopy ty).length) n p fun q =>
      q.pc = p.pc + 1 + (openCopy ty).length ∧ ∃ made',
        p₀.Fills hidden kept same made' slot a items q ∧
        Kept (made \ {a}) p.world.heap q.world.heap ∧ Opened made' q)
    (hexpr : s.Computes slots depth literals names n (p.pc + 1 + (openCopy ty).length) code 1)
    (hclose : ∀ made' q b v k, Opened made' q → p₀.Fills hidden kept same made' slot a items b →
      Kept made' q.world.heap b.world.heap →
      b.pc = p.pc + 1 + (openCopy ty).length + code.length → b.stack = v :: q.stack →
      b.world.heap.Sees made' v → s.Passing b.pc top k b fun c => c.pc = top ∧ c.stack = p.stack ∧
        ∃ grown v', p₀.Fills hidden kept same grown slot a (items.push v') c ∧ made ⊆ grown ∧
          Kept (made \ {a}) q.world.heap c.world.heap ∧ ∀ final,
          Kept (grown \ {a}) c.world.heap final → Handed ty p.world.heap b.world.heap final v v')
    (hhas : s.HasAdd p.pc slot ty code top)
    (hslot : Typing.Reserved slots depth literals slot)
    (hkept : ∀ slot ∈ kept, Typing.Reserved slots depth literals slot)
    (hsame : same ⊆ Spared slots depth literals names) :
    s.Passing p.pc top n p fun q =>
      q.pc = top ∧ s.Adds hidden kept same made p₀ slot a items ty code p q := by
  obtain ⟨hbefore, hvalue, hafter, htop⟩ := hhas
  refine hopen.bind (Nat.le_refl _) (by omega) ?_
  rintro q i - ⟨hq_pc, made', hq, hq_kept, hopened⟩ hruns
  have computed := hexpr (n - i) (Nat.sub_le ..) made' (insert slot kept) (insert slot same) q hq_pc
    (by rintro other (rfl | hother); exacts [hslot, hkept other hother])
    (by rintro other (rfl | hother); exacts [.inl hslot, hsame hother]) hq.clear
  refine computed.bind (by omega) (by omega) ?_
  rintro b j - hb hruns'
  obtain ⟨ops, hstack, hlength, hops⟩ := hb.stack
  obtain ⟨v, rfl⟩ := List.length_eq_one_iff.1 hlength
  have closed := hclose made' q b v (n - i - j) hopened (hq.evolve hb.later) hb.later.kept hb.place
    hstack (hops v (by simp))
  refine closed.bind (by rw [hb.place]; omega) (Nat.le_refl _) ?_
  rintro c k - ⟨hc_pc, hc_stack, made'', v', hc, hsub, hc_kept, hhanded⟩ hruns''
  refine .here ⟨hc_pc, hc_stack, made'', v', hc, hsub, hq_kept.trans hc_kept,
    fun final hfinal => ?_⟩
  have before := along_of_has hruns hbefore (by simp only [List.length_cons]; omega)
    (staysPut_openCopy slot ty)
  have after := along_of_has hruns'' (hb.place ▸ hafter)
    (by rw [htop, hb.place, List.length_append, ← Nat.add_assoc]; rfl) (staysPut_closeCopy ty)
  refine .mk hq_pc (hq_pc ▸ hvalue) (hq_pc ▸ before) (hruns'.widen fun _ hm => ?_)
    (by rw [hb.place, hq_pc]) hstack (hhanded final hfinal) (hc_pc ▸ after)
    (by rw [hc_pc, htop, hb.place])
  rw [hq_pc, hb.place]
  exact hm.2

/-- An element that is added as it is. -/
lemma passing_plain (hty : ty.isList = false)
    (hfills : p₀.Fills hidden kept same made slot a items p)
    (hexpr : s.Computes slots depth literals names n (p.pc + 1 + (openCopy ty).length) code 1)
    (hhas : s.HasAdd p.pc slot ty code top)
    (hslot : Typing.Reserved slots depth literals slot)
    (hkept : ∀ slot ∈ kept, Typing.Reserved slots depth literals slot)
    (hsame : same ⊆ Spared slots depth literals names) :
    s.Passing p.pc top n p fun q =>
      q.pc = top ∧ s.Adds hidden kept same made p₀ slot a items ty code p q := by
  have hopening : (openCopy ty).length = 0 := by simp [openCopy, hty]
  have hclosing : (closeCopy ty).length = 0 := by simp [closeCopy, hty]
  have hload := (has_cons.1 hhas.opening).1
  have hadd := (has_append.1 hhas.closing).2
  have htop := hhas.top
  refine passing_gathered (fun made' q => made' = made ∧ q.stack = .ref a :: p.stack) ?_ hexpr ?_
    hhas hslot hkept hsame
  · rw [hopening]
    exact passing_fetch hfills hload (Nat.le_refl _) (Nat.lt_succ_self _) fun h =>
      .here ⟨rfl, made, h, .refl .., rfl, rfl⟩
  · rintro made' q b v k ⟨rfl, hq_stack⟩ hb hb_kept hb_pc hb_stack hv
    rw [hclosing, Nat.add_zero, ← hb_pc] at hadd htop
    subst htop
    refine (passing_add hb hadd (by rw [hb_stack, hq_stack])
      (hv.mono (Nat.le_refl _) hb.hides)).weaken ?_
    rintro c ⟨hc_pc, hc_stack, hc, hc_kept⟩
    refine ⟨hc_pc, hc_stack, made', v, hc, subset_rfl, ?_, fun final _ => ?_⟩
    · exact (hb_kept.mono fun x hx => hx.1).trans hc_kept
    · rw [Handed, if_neg (by simp [hty])]

/-- An element of list type is added as a copy. -/
lemma passing_copied (hty : ty.isList = true)
    (hfills : p₀.Fills hidden kept same made slot a items p)
    (hexpr : s.Computes slots depth literals names n (p.pc + 1 + (openCopy ty).length) code 1)
    (hhas : s.HasAdd p.pc slot ty code top)
    (hslot : Typing.Reserved slots depth literals slot)
    (hkept : ∀ slot ∈ kept, Typing.Reserved slots depth literals slot)
    (hsame : same ⊆ Spared slots depth literals names) :
    s.Passing p.pc top n p fun q =>
      q.pc = top ∧ s.Adds hidden kept same made p₀ slot a items ty code p q := by
  have hopening : openCopy ty = [.new ClassName.list, .dup] := if_pos hty
  have hclosing : closeCopy ty = [.construct .listCopy] := if_pos hty
  obtain ⟨hload, hopen⟩ := has_cons.1 hhas.opening
  obtain ⟨hclose, hadd⟩ := has_append.1 hhas.closing
  have htop := hhas.top
  -- the list that will hold the copy
  let l := p.world.heap.objects.size
  have fresh : l ∉ made := fun hl => Nat.lt_irrefl _ (hfills.clear.sealed.bounded _ hl)
  have apart : l ≠ a := fun hl => fresh (hl ▸ hfills.mem)
  refine passing_gathered (fun made' q => made' = insert l made ∧
    q.stack = .ref l :: .ref l :: .ref a :: p.stack ∧
    q.world.heap.get? l = some (.uninit ClassName.list)) ?_ hexpr ?_ hhas hslot hkept hsame
  · rw [hopening] at hopen ⊢
    refine passing_fetch hfills hload (Nat.le_refl _) (by simp; omega) fun h => ?_
    refine (passing_openCopy h hopen).seq (by simp) (Nat.le_refl _) ?_
    rintro q k - ⟨rfl, hq⟩
    exact .here ⟨rfl, _, hq, kept_alloc .., rfl, rfl, by simp [l]⟩
  · rintro made' q b v k ⟨rfl, hq_stack, hq_list⟩ hb hb_kept hb_pc hb_stack hv
    rw [← hb_pc] at hadd htop hclose
    rw [hclosing] at hadd htop hclose
    subst htop
    have hidden_l : l ∉ hidden := fun hl => fresh (hfills.hides hl)
    have waiting : b.world.heap.get? l = some (.uninit ClassName.list) :=
      (hb_kept.hides (Set.mem_insert ..) (lt_size_of_get? hq_list)).trans hq_list
    have hcopy : s.code[b.pc]? = some (.construct .listCopy) := hclose 0 _ rfl
    refine (passing_closeCopy hb hcopy (hb_stack.trans (by rw [hq_stack])) waiting).seq
      (Nat.le_refl _) (by simp) ?_
    rintro _ i - ⟨copied, hcopied, rfl⟩
    have hc : p₀.Fills hidden kept same (insert b.world.heap.objects.size (insert l made)) slot a
        items ⟨b.pc + 1, .ref l :: .ref a :: p.stack, b.locals,
          { b.world with heap := b.world.heap.wrapCopy l copied }⟩ :=
      hb.copy (Set.mem_insert ..) hidden_l waiting
        (sees_itemsWithin hb.clear.sealed.guards hv hcopied) _
        (by simp +contextual [hb_stack, hq_stack])
    have seen : (b.world.heap.wrapCopy l copied).Sees hidden (.ref l) := by
      have there := lt_size_of_get? waiting
      exact sees_ref.2 ⟨by rw [size_wrapCopy]; omega, hidden_l⟩
    refine (passing_add hc hadd rfl seen).seq (by simp) (Nat.le_refl _) ?_
    rintro c k' - ⟨hc_pc, hc_stack, hc, hc_kept⟩
    refine .here ⟨hc_pc, hc_stack, _, _, hc, ?_, ?_, fun final hfinal => ?_⟩
    · exact (Set.subset_insert ..).trans (Set.subset_insert ..)
    · have hidden_sub : made \ {a} ⊆ insert b.world.heap.objects.size (insert l made) \ {a} :=
        fun x hx => ⟨.inr (.inr hx.1), hx.2⟩
      exact ((hb_kept.mono fun x hx => .inr hx.1).trans
        (kept_wrapCopy waiting (fun hl => fresh hl.1) copied)).trans (hc_kept.mono hidden_sub)
    · have kept_copy := hc_kept.trans hfinal
      obtain ⟨hlist, hitems⟩ := get?_wrapCopy waiting copied
      have behind : b.world.heap.objects.size ≠ a := Nat.ne_of_gt (lt_size_of_get? hb.items)
      rw [Handed, if_pos hty]
      refine ⟨l, b.world.heap.objects.size, copied, rfl, Nat.le_refl _, waiting, Nat.le_refl _,
        hcopied, ?_, ?_⟩
      · exact (kept_copy.hides ⟨.inr (.inl rfl), apart⟩ (lt_size_of_get? hlist)).trans hlist
      · exact (kept_copy.hides ⟨.inl rfl, behind⟩ (lt_size_of_get? hitems)).trans hitems

/-- **An element is gathered**, as it is or as a copy. -/
theorem passing_element (hfills : p₀.Fills hidden kept same made slot a items p)
    (hexpr : s.Computes slots depth literals names n (p.pc + 1 + (openCopy ty).length) code 1)
    (hhas : s.Has p.pc (addCode slot ty code)) (hslot : Typing.Reserved slots depth literals slot)
    (hkept : ∀ slot ∈ kept, Typing.Reserved slots depth literals slot)
    (hsame : same ⊆ Spared slots depth literals names) :
    s.Passing p.pc (p.pc + (addCode slot ty code).length) n p fun q =>
      q.pc = p.pc + (addCode slot ty code).length ∧
        s.Adds hidden kept same made p₀ slot a items ty code p q := by
  have hadd := hasAdd_addCode hhas
  cases hty : ty.isList with
  | false => exact passing_plain hty hfills hexpr hadd hslot hkept hsame
  | true => exact passing_copied hty hfills hexpr hadd hslot hkept hsame

end Element

/-! ## Elements one after another -/

/-- **Code that packs** the values of expressions into the array in a slot. -/
def Packs (s : Site) (env : Env) (scope : ScopeId) (slots : Slots) (depth literals slot n pc : Nat)
    (es : List Expr) (code : List Instruction) : Prop :=
  ∀ k ≤ n, ∀ (hidden kept same made : Set Nat) (p₀ p : Point) (a : Nat) (items : Array Value),
    p.pc = pc → p₀.Fills hidden kept same made slot a items p →
    Typing.Reserved slots depth literals slot →
    (∀ slot ∈ kept, Typing.Reserved slots depth literals slot) →
    same ⊆ Spared slots depth literals (Expr.countedIn es) →
    s.Passing pc (pc + code.length) k p fun q => q.pc = pc + code.length ∧ q.stack = p.stack ∧
      ∃ made' vs, p₀.Fills hidden kept same made' slot a (items ++ vs.toArray) q ∧
        Kept (made \ {a}) p.world.heap q.world.heap ∧
        s.Gathers env scope depth q.world.heap es p vs q

lemma staysPut_resultCode (ty : Ty) : (resultCode ty).all Instruction.staysPut = true := by
  rw [resultCode]
  split
  · rfl
  · rw [downcast]
    split <;> rfl

lemma staysPut_callee {env : Env} {scope : ScopeId} {t u : Supply} {name : String}
    {code : List Instruction} (h : CalleeCode env scope t name code u) :
    code.all Instruction.staysPut = true := by
  cases h with
  | fn _ | var _ _ => simp [closureCode, Instruction.construct, Instruction.staysPut]

lemma staysPut_arrayCode (slot : Nat) : (arrayCode slot).all Instruction.staysPut = true := by
  simp [arrayCode, Instruction.construct, Instruction.staysPut]

section Packs

variable {s : Site} {env : Env} {scope : ScopeId} {slots : Slots} {depth literals slot n pc : Nat}
  {code codes : List Instruction}

lemma packs_nil : s.Packs env scope slots depth literals slot n pc [] [] := by
  rintro k - hidden kept same made p₀ p a items rfl hfills - - -
  exact .here ⟨rfl, rfl, made, [], by simpa using hfills, .refl .., .nil⟩

lemma packs_cons {e : Expr} {rest : List Expr} {t u : Supply}
    (hcode : ExprCode env scope depth t e code u) (hhas : s.Has pc (addCode slot e.ty code))
    (hexpr : s.Computes slots depth t.literals e.counted n (pc + 1 + (openCopy e.ty).length) code 1)
    (hrest : s.Packs env scope slots depth u.literals slot n
      (pc + (addCode slot e.ty code).length) rest codes) :
    s.Packs env scope slots depth t.literals slot n pc (e :: rest)
      (addCode slot e.ty code ++ codes) := by
  rintro k hk hidden kept same made p₀ p a items rfl hfills hslot hkept hsame
  have more := hcode.within.literals
  rw [List.length_append, ← Nat.add_assoc]
  have element := passing_element (n := k) hfills (fun i hi => hexpr i (Nat.le_trans hi hk)) hhas
    hslot
    hkept (hsame.trans (Spared.mono (Nat.le_refl _) (Nat.le_refl _) (List.subset_append_left ..)))
  refine element.bind (Nat.le_refl _) (Nat.le_add_right ..) ?_
  rintro q i hi ⟨hq_pc, hq_stack, made', v, hq, hsub, hq_kept, hgathered⟩ -
  refine (hrest (k - i) (by omega) hidden kept same made' p₀ q a _ hq_pc hq
    (hslot.mono (Nat.le_refl _) more) (fun slot h => (hkept slot h).mono (Nat.le_refl _) more)
    (hsame.trans (Spared.mono (Nat.le_refl _) more (List.subset_append_right ..)))).seq
    (Nat.le_add_right ..) (Nat.le_refl _) ?_
  rintro r j - ⟨hr_pc, hr_stack, made'', vs, hr, hr_kept, hgathers⟩
  refine .here ⟨hr_pc, hr_stack.trans hq_stack, made'', v :: vs, by simpa using hr,
    hq_kept.trans (hr_kept.mono fun x hx => ⟨hsub hx.1, hx.2⟩), ?_⟩
  exact .cons hcode (hgathered _ hr_kept) hgathers

/-- **A list literal**: an array, its elements, and a list around it. -/
lemma Packs.list {es : List Expr}
    (h : s.Packs env scope slots depth (literals + 1) slot n (pc + 4) es code)
    (hslot : slots.get? (.listLiteral literals) = some slot)
    (hhas : s.Has pc (arrayCode slot ++ code ++ wrapCode slot)) :
    s.Computes slots depth literals (Expr.countedIn es) n pc
      (arrayCode slot ++ code ++ wrapCode slot) 1 := by
  rintro k hk hidden kept same p rfl hkept hsame hclear
  obtain ⟨hfirst, hwrap⟩ := has_append.1 hhas
  obtain ⟨harray, hcode⟩ := has_append.1 hfirst
  have unspared : slot ∉ Spared slots depth literals (Expr.countedIn es) := not_spared_literal hslot
  have length_eq : p.pc + (arrayCode slot ++ code ++ wrapCode slot).length
      = p.pc + 4 + code.length + 4 := by
    simp only [List.length_append, arrayCode, wrapCode, List.length_cons, List.length_nil]
    omega
  rw [length_eq]
  refine (passing_array hclear harray fun hs => unspared (hsame hs)).seq (Nat.le_refl _)
    (by omega) ?_
  rintro q i hi ⟨hq_pc, hq_stack, hq⟩
  have packed := h i (by omega) hidden kept same _ p q _ _ hq_pc hq
    (.inl ⟨literals, by omega, hslot⟩)
    (fun slot hs => (hkept slot hs).mono (Nat.le_refl _) (Nat.le_succ _))
    (hsame.trans (Spared.mono (Nat.le_refl _) (Nat.le_succ _) (List.Subset.refl _)))
  refine packed.seq (by omega) (by omega) ?_
  rintro r j - ⟨hr_pc, hr_stack, made', vs, hr, -, -⟩
  have stands : s.Has r.pc (wrapCode slot) := by
    rw [List.length_append, ← Nat.add_assoc] at hwrap
    rw [hr_pc]
    exact hwrap
  refine (passing_wrap hr (fun hs => unspared (.inl (hkept slot hs))) stands).seq (by omega)
    (by omega) ?_
  rintro q' k' - ⟨hlater, hpc, l, hstack, hsees⟩
  exact .here ⟨hlater, by rw [hpc, hr_pc], [.ref l], by simp [hstack, hr_stack, hq_stack], rfl,
    by simpa using hsees⟩

/-- The second half of a call: the array is pushed, the pointer is called with its items, and
something is made of the result. -/
lemma passing_invocation {hidden kept same made : Set Nat} {p₀ p : Point} {a : Nat}
    {items : Array Value} {ret : Ty} {target : Value} {base : List Value}
    (hcalls : ∀ k < n, s.classFile.SparesHidden k)
    (hfills : p₀.Fills hidden kept same made slot a items p)
    (hload : s.code[p.pc]? = some (.load slot))
    (hinvoke : s.code[p.pc + 1]? = some (.callVirtual .closureInvoke))
    (hresult : s.Has (p.pc + 2) (resultCode ret)) (hstack : p.stack = target :: base)
    (hseen : p.world.heap.Sees hidden target) :
    s.Passing p.pc (p.pc + 2 + (resultCode ret).length) n p fun q =>
      p₀.Later hidden kept same q ∧ q.pc = p.pc + 2 + (resultCode ret).length ∧
      ∃ receiver f method result entry after i j,
        p.world.heap.object? target = some (.closure receiver f) ∧
        s.classFile.resolve f = .ok method ∧ entry.world = p.world ∧
        Machine.Runs s.classFile (s.Along p.pc entry.pc) (s.machine p) i (s.machine entry) ∧
        s.Invokes method receiver items.toList entry entry.world result after ∧
        Machine.Runs s.classFile (s.Along after.pc q.pc) (s.machine after) j (s.machine q) ∧
        q.stack = (if ret.isVoid then [] else [result.getD .null]) ++ base ∧
        q.world.heap.Sees hidden (result.getD .null) := by
  let entry : Point := ⟨p.pc + 1, .ref a :: p.stack, p.locals, p.world⟩
  have fetched : s.Passing p.pc (p.pc + 1) n p fun q =>
      q = entry ∧ p₀.Fills hidden kept same made slot a items entry :=
    passing_fetch hfills hload (Nat.le_refl _) (Nat.lt_succ_self _) fun h => .here ⟨rfl, h⟩
  refine fetched.bind (Nat.le_refl _) (by omega) ?_
  rintro _ i - ⟨rfl, hentry⟩ hruns
  have called := passing_invoke (p := entry) (n := n - i) (fun k hk => hcalls k (by omega))
    hentry.later.clear hinvoke (congrArg _ hstack) hseen hentry.shown hentry.items
  refine called.seq (Nat.le_succ _) (Nat.le_add_right ..) ?_
  rintro _ k - ⟨receiver, f, method, result, w, hclosure, hresolve, hinvokes, rfl, hafter, hkept,
    hv⟩
  refine (passing_result hafter hresult rfl).bind (Nat.le_add_right p.pc 2) (Nat.le_refl _) ?_
  rintro _ j - rfl hruns'
  refine .here ⟨⟨hafter.move hafter.sealed (Nat.le_refl _) _ ?_, hentry.later.kept.trans hkept,
    hentry.later.same⟩, rfl, receiver, f, method, result, entry, _, i, j, hclosure, hresolve, rfl,
    along_of_has hruns (has_cons.2 ⟨hload, has_nil s _⟩) rfl rfl, hinvokes,
    along_of_has hruns' hresult rfl (staysPut_resultCode ret), rfl, hv⟩
  intro v hv
  refine .inl ?_
  rcases List.mem_append.1 hv with hv | hv
  · split at hv <;> simp_all
  · exact List.mem_cons_of_mem _ hv

/-- **A whole call expression**: the arguments are gathered one after another, the method is called
on the receiver with them, and its result is on the stack, unless it is dropped.  Apart from the
code of the arguments and that one call, the run stays in its frame. -/
inductive Performs (s : Site) (env : Env) (scope : ScopeId) (depth : Nat) (args : List Expr)
    (ret : Ty) (method : Method) (receiver : Value) (p q : Point) : Prop
  | mk {start gathered entry after : Point} {vs : List Value} {result : Option Value}
      {i j k : Nat} :
      Machine.Runs s.classFile (s.Along p.pc start.pc) (s.machine p) i (s.machine start) →
      s.Gathers env scope (depth + 1) entry.world.heap args start vs gathered →
      Machine.Runs s.classFile (s.Along gathered.pc entry.pc) (s.machine gathered) j
        (s.machine entry) →
      s.Invokes method receiver vs entry entry.world result after →
      Machine.Runs s.classFile (s.Along after.pc q.pc) (s.machine after) k (s.machine q) →
      q.stack = (if ret.isVoid then [] else [result.getD .null]) ++ p.stack →
      Performs s env scope depth args ret method receiver p q

/-- **A call is carried out**, at the depth of calls around it, if its arguments are packed. -/
theorem passing_call {t u : Supply} {name : String} {args : List Expr} {first : List Instruction}
    {ret : Ty} (hcalls : ∀ k < n, s.classFile.SparesHidden k) {hidden kept same : Set Nat}
    {p : Point} (hfirst : CalleeCode env scope t name first u)
    (hpacks : ∀ pc, s.Has pc code →
      s.Packs env scope slots (depth + 1) u.literals slot n pc args code)
    (hwithin : u.slots.Within slots) (hslot : slots.get? (.callArgs name depth) = some slot)
    (hhas : s.Has p.pc (callCode slot ret first code))
    (hkept : ∀ slot ∈ kept, Typing.Reserved slots depth t.literals slot)
    (hsame : same ⊆ Spared slots depth t.literals (Expr.countedIn args))
    (hclear : p.Clear hidden kept) :
    s.Passing p.pc (p.pc + (callCode slot ret first code).length) n p fun q =>
      p.Arrives hidden kept same (p.pc + (callCode slot ret first code).length) p.stack
        (if ret.isVoid then 0 else 1) q ∧
      ∀ receiver f, Denotes env scope slots name p receiver f → ∃ method,
        s.classFile.resolve f = .ok method ∧
        s.Performs env scope depth args ret method receiver p q := by
  have unspared : slot ∉ Spared slots depth t.literals (Expr.countedIn args) :=
    not_spared_args hslot
  have length_eq : p.pc + (callCode slot ret first code).length
      = p.pc + first.length + 4 + code.length + 1 + 1 + (resultCode ret).length := by
    simp only [callCode, List.length_append, arrayCode, List.length_cons, List.length_nil]
    omega
  rw [length_eq]
  simp only [callCode, has_append, List.length_append, has_cons, has_nil, and_true, ← Nat.add_assoc]
    at hhas
  obtain ⟨⟨⟨⟨hcallee, harray⟩, hargs⟩, hload, hinvoke⟩, hresult⟩ := hhas
  -- the function pointer
  refine (passing_callee same hfirst hwithin hclear hcallee
    (fun hzero => not_reserved_zero (hkept 0 hzero))
    (fun slot hvar hs => Typing.not_reserved_var hvar (hkept slot hs))).bind (Nat.le_refl _)
      (by omega) ?_
  rintro q₁ i₁ - ⟨target, hq₁, hq₁_stack, hdenotes⟩ hruns₁
  -- a new array
  rw [← hq₁.place] at harray
  refine (passing_array hq₁.later.clear harray fun hs => unspared (hsame hs)).bind
    (by rw [hq₁.place]; omega) (by rw [hq₁.place]; omega) ?_
  rintro q₂ i₂ - ⟨hq₂_pc, hq₂_stack, hq₂⟩ hruns₂
  rw [hq₁.place] at hq₂_pc hruns₂
  have started : Machine.Runs s.classFile (s.Along p.pc q₂.pc) (s.machine p) (i₁ + i₂)
      (s.machine q₂) :=
    ((along_of_has hruns₁ hcallee rfl (staysPut_callee hfirst)).widen fun _ hm =>
      hm.widen (Nat.le_refl _) (by omega)).trans
      ((along_of_has hruns₂ (hq₁.place ▸ harray) rfl (staysPut_arrayCode slot)).widen fun _ hm =>
        hm.widen (by omega) (by omega))
  -- the arguments
  have more := hfirst.within.literals
  refine (hpacks (p.pc + first.length + 4) hargs (n - i₁ - i₂) (by omega) hidden kept same _ q₁ q₂
    _ _ hq₂_pc hq₂
    (.inr ⟨name, depth, by omega, hslot⟩) (fun slot hs => (hkept slot hs).mono (by omega) more)
    (hsame.trans (Spared.mono (by omega) more (List.Subset.refl _)))).seq (by omega) (by omega) ?_
  rintro q₃ j hj ⟨hq₃_pc, hq₃_stack, made, vs, hq₃, -, hgathers⟩
  -- the call
  have seen : q₃.world.heap.Sees hidden target := hq₃.later.kept.sees (hq₁.sees hq₁_stack)
  refine (passing_invocation (fun k hk => hcalls k (by omega)) hq₃ (by rw [hq₃_pc]; exact hload)
    (by rw [hq₃_pc]; exact hinvoke) (by rw [hq₃_pc]; exact hresult)
    (by rw [hq₃_stack, hq₂_stack, hq₁_stack]) seen).seq (by omega) (by omega) ?_
  rintro q k - ⟨hlater, hq_pc, receiver, f, method, result, entry, after, i, i', hclosure, hresolve,
    hworld, hruns₃, hinvokes, hruns₄, hq_stack, hsees⟩
  refine .here ⟨⟨hq₁.later.trans hlater, by rw [hq_pc, hq₃_pc], _, hq_stack, ?_, ?_⟩, ?_⟩
  · split <;> rfl
  · intro v hv
    split at hv <;> simp_all
  · intro receiver' f' hdenotes'
    have hclosure' := hq₃.later.kept.object? (hdenotes receiver' f' hdenotes') rfl
    obtain ⟨rfl, rfl⟩ : receiver = receiver' ∧ f = f' := by simpa [hclosure] using hclosure'
    exact ⟨method, hresolve, .mk started (hworld ▸ hgathers) hruns₃ (by simpa using hinvokes) hruns₄
      hq_stack⟩

end Packs

/-! ## Operands -/

section Computes

variable {s : Site} {slots : Slots} {depth literals n pc : Nat} {names names' : List String}
  {code more : List Instruction}

lemma computes_straight {height : Nat} (h : Straight slots names 0 code height)
    (hhas : s.Has pc code) : s.Computes slots depth literals names n pc code height := by
  rintro k - hidden kept same p rfl hkept hsame hclear
  exact h.passing (hclear.arrives same) hhas hkept hsame (Nat.le_refl _) (Nat.le_refl _)

/-- What code does to what other code has computed. -/
lemma Computes.append {d e : Nat} (h : s.Computes slots depth literals names' n pc code d)
    (hnames : names' ⊆ names) (hmore : ∀ {k : Nat} {hidden kept same : Set Nat} {p₀ p : Point},
      p₀.Arrives hidden kept same (pc + code.length) p₀.stack d p →
      (∀ slot ∈ kept, Typing.Reserved slots depth literals slot) →
      same ⊆ Spared slots depth literals names →
      s.Passing pc (pc + code.length + more.length) k p
        (p₀.Arrives hidden kept same (pc + code.length + more.length) p₀.stack e)) :
    s.Computes slots depth literals names n pc (code ++ more) e := by
  rintro k hk hidden kept same p rfl hkept hsame hclear
  rw [List.length_append, ← Nat.add_assoc]
  refine (h k hk hidden kept same p rfl hkept (hsame.trans (Spared.mono (Nat.le_refl _)
    (Nat.le_refl _) hnames)) hclear).seq (Nat.le_refl _) (Nat.le_add_right ..) fun q i _ hq => ?_
  exact hmore hq hkept hsame

/-- One operand after another. -/
lemma Computes.pair {literals' d e : Nat} (h : s.Computes slots depth literals names' n pc code d)
    (hnames : names' ⊆ names) {names'' : List String}
    (h' : s.Computes slots depth literals' names'' n (pc + code.length) more e)
    (hnames' : names'' ⊆ names) (hliterals : literals ≤ literals') :
    s.Computes slots depth literals names n pc (code ++ more) (d + e) := by
  rintro k hk hidden kept same p rfl hkept hsame hclear
  rw [List.length_append, ← Nat.add_assoc]
  refine (h k hk hidden kept same p rfl hkept (hsame.trans (Spared.mono (Nat.le_refl _)
    (Nat.le_refl _) hnames)) hclear).seq (Nat.le_refl _) (Nat.le_add_right ..) fun q i hi hq => ?_
  refine (h' i (Nat.le_trans hi hk) hidden kept same q hq.place
    (fun slot hs => (hkept slot hs).mono (Nat.le_refl _) hliterals)
    (hsame.trans (Spared.mono (Nat.le_refl _) hliterals hnames')) hq.later.clear).seq
    (Nat.le_add_right ..) (Nat.le_refl _) fun r j _ hr => .here (hq.extend hr)

end Computes

end Site

namespace Lowering

open Site

section

variable {s : Site} {env : Env} {scope : ScopeId} {slots : Slots} {n : Nat}

lemma UnaryCode.counted {t u : Supply} {e operand : Expr} {last : List Instruction}
    (h : UnaryCode t e operand last u) : operand.counted ⊆ e.counted := by
  cases h with
  | neg _ | not _ | lenText _ | lenList _ | chop _ | count _ _ _ _ => simp [Expr.counted]

lemma BinaryCode.counted {t u : Supply} {e lhs rhs : Expr} {middle last : List Instruction}
    (h : BinaryCode t e lhs rhs middle last u) :
    lhs.counted ⊆ e.counted ∧ rhs.counted ⊆ e.counted := by
  cases h with
  | arith _ _ _ | scalar _ _ | text _ _ | identity _ _ | index _ _ =>
      simp [Expr.counted, Expr.countedIn]

lemma counted_call {note note' : Note} {name : String} {args : List Expr} :
    (Expr.call note (.ident note' name) args).counted = Expr.countedIn args := by
  simp [Expr.counted]

/-- A call leaves a value unless its result is dropped. -/
lemma height_call {note note' : Note} {name : String} {args : List Expr} :
    (if producesValue env scope (.call note (.ident note' name) args) then 1 else 0)
      = if (callType env scope name note.ty).isVoid then 0 else 1 := by
  by_cases hvoid : (callType env scope name note.ty).isVoid <;>
    simp [producesValue, Expr.ident?, hvoid]

mutual

/-- **The code of an expression computes it**, and keeps to what it sees. -/
theorem ExprCode.computes {depth pc : Nat} {t u : Supply} {e : Expr} {code : List Instruction}
    (h : ExprCode env scope depth t e code u) (hcalls : ∀ k < n, s.classFile.SparesHidden k)
    (hwithin : u.slots.Within slots) (hhas : s.Has pc code) :
    s.Computes slots depth t.literals e.counted n pc code
      (if producesValue env scope e then 1 else 0) := by
  match h with
  | .leaf hleaf =>
      have value : producesValue env scope e = true := by cases hleaf <;> rfl
      rw [if_pos value]
      exact computes_straight (hleaf.straight hwithin 0) hhas
  | .unary hv hoperand hcode =>
      have value : producesValue env scope e = true := by cases hcode <;> rfl
      obtain ⟨hfirst, hlast⟩ := has_append.1 hhas
      have operand := hoperand.computes hcalls (hcode.within.slots.trans hwithin) hfirst
      rw [if_pos hv] at operand
      rw [if_pos value]
      exact operand.append hcode.counted fun hp hkept hsame =>
        (hcode.straight hwithin 0).passing hp hlast hkept hsame (Nat.le_add_right ..)
          (Nat.le_refl _)
  | .binary hv hlhs hv' hrhs hcode =>
      have value : producesValue env scope e = true := by cases hcode <;> rfl
      obtain ⟨hbefore, hlast⟩ := has_append.1 hhas
      obtain ⟨hbefore', hsecond⟩ := has_append.1 hbefore
      obtain ⟨hfirst, hmiddle⟩ := has_append.1 hbefore'
      have within := hcode.within.slots.trans hwithin
      have lhs := hlhs.computes hcalls (hrhs.within.slots.trans within) hfirst
      have rhs := hrhs.computes hcalls within hsecond
      rw [if_pos hv] at lhs
      rw [if_pos hv'] at rhs
      rw [if_pos value]
      have operands := (lhs.append hcode.counted.1 fun hp hkept hsame =>
        (hcode.straight 0).passing hp hmiddle hkept hsame (Nat.le_add_right ..)
          (Nat.le_refl _)).pair
        (List.Subset.refl _) rhs hcode.counted.2 hlhs.within.literals
      exact operands.append (List.Subset.refl _) fun hp hkept hsame =>
        hcode.passing hp hlast hkept hsame (Nat.le_add_right ..) (Nat.le_refl _)
  | .list _ helements =>
      have hslot := Supply.get?_literal (helements.within.slots.trans hwithin)
      exact (helements.packs hcalls hwithin (has_append.1 (has_append.1 hhas).1).2).list hslot hhas
  | .call hfirst _ hargs =>
      rintro k hk hidden kept same p rfl hkept hsame hclear
      rw [counted_call] at hsame
      rw [height_call]
      have within := hargs.within.slots.trans hwithin
      exact (passing_call (fun i hi => hcalls i (Nat.lt_of_lt_of_le hi hk)) hfirst
        (fun pc hcodes i hi => hargs.packs hcalls hwithin hcodes i (Nat.le_trans hi hk))
        ((Supply.within_withSlot _ _).slots.trans within) (Supply.get?_slotOf within) hhas hkept
        hsame
        hclear).weaken fun q hq => hq.1

theorem ElementsCode.packs {depth slot pc : Nat} {t u : Supply} {es : List Expr}
    {code : List Instruction} (h : ElementsCode env scope depth slot t es code u)
    (hcalls : ∀ k < n, s.classFile.SparesHidden k) (hwithin : u.slots.Within slots)
    (hhas : s.Has pc code) : s.Packs env scope slots depth t.literals slot n pc es code := by
  match h with
  | .nil => exact packs_nil
  | .cons hv he hrest =>
      obtain ⟨helement, hcodes⟩ := has_append.1 hhas
      have element := he.computes hcalls (hrest.within.slots.trans hwithin)
        (has_append.1 (has_append.1 (has_append.1 helement).1).1).2
      rw [if_pos hv, List.length_cons, ← Nat.add_assoc, Nat.add_right_comm] at element
      exact packs_cons he helement element (hrest.packs hcalls hwithin hcodes)

end

/-- **The code of a call carries it out.** -/
theorem ExprCode.performs {depth : Nat} {t u : Supply} {note note' : Note} {name : String}
    {args : List Expr} {code : List Instruction}
    (h : ExprCode env scope depth t (.call note (.ident note' name) args) code u)
    (hcalls : ∀ k < n, s.classFile.SparesHidden k) (hwithin : u.slots.Within slots) {p : Point}
    (hhas : s.Has p.pc code) {hidden same : Set Nat} (hclear : p.Clear hidden ∅)
    (hsame : same ⊆ Spared slots depth t.literals (Expr.countedIn args)) :
    s.Passing p.pc (p.pc + code.length) n p fun q => q.pc = p.pc + code.length ∧
      (∀ slot ∈ same, q.locals[slot]?.getD .null = p.locals[slot]?.getD .null) ∧
      ∀ receiver f, Denotes env scope slots name p receiver f → ∃ method,
        s.classFile.resolve f = .ok method ∧
        s.Performs env scope depth args (callType env scope name note.ty) method receiver p q := by
  cases h with
  | leaf hleaf => cases hleaf
  | unary _ _ hcode => cases hcode
  | binary _ _ _ _ hcode => cases hcode
  | call hfirst _ hargs =>
      have within := hargs.within.slots.trans hwithin
      exact (passing_call hcalls hfirst (fun pc hcodes => hargs.packs hcalls hwithin hcodes)
        ((Supply.within_withSlot _ _).slots.trans within) (Supply.get?_slotOf within) hhas (by simp)
        hsame hclear).weaken fun q hq => ⟨hq.1.place, hq.1.later.same, hq.2⟩

end

end Lowering

end StackBackend
