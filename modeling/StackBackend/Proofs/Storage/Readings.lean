import StackBackend.Proofs.Lowering.Occurrences
import StackBackend.Proofs.Machine.HeapTyping
import StackBackend.Proofs.Storage.Expressions
import StackBackend.Proofs.Storage.Sights
import StackBackend.Proofs.Storage.Walks

/-!
# Expressions without effects

A run through the code of an expression that calls nothing and counts nothing is taken apart along
the code.  It ends with a value that shows the sight of the expression.

* `Point.Extends` — what such code leaves alone;
* `Site.Reads`, `Site.ReadsTwo` — one value, or two, have been read;
* `Assembles` — a list literal fills its array.  The array changes, but no sight leads to it: the
  items have been made after it;
* `ExprCode.reads` — the code of an expression reads its sight;
* `Sighted.same` — so a number is the same number, evaluated once more.
-/

namespace StackBackend

open Heap Lowering

/-! ## Points -/

namespace Point

/-- **Nothing has changed that an expression without effects leaves alone**: there may be new
objects, and arrays in the slots of the list literals from `literals` on. -/
structure Extends (slots : Slots) (literals : Nat) (p q : Point) : Prop where
  heap : p.world.heap.Within q.world.heap
  locals : ∀ slot, (∀ number, literals ≤ number → slots.get? (.listLiteral number) ≠ some slot) →
    q.locals[slot]?.getD .null = p.locals[slot]?.getD .null

variable {slots : Slots} {literals literals' slot : Nat} {p q r : Point}

lemma extends_of_same (hlocals : q.locals = p.locals) (hheap : p.world.heap.Within q.world.heap) :
    p.Extends slots literals q :=
  ⟨hheap, fun slot _ => by rw [hlocals]⟩

lemma Extends.trans (h : p.Extends slots literals q) (h' : q.Extends slots literals r) :
    p.Extends slots literals r :=
  ⟨h.heap.trans h'.heap, fun slot hslot => (h'.locals slot hslot).trans (h.locals slot hslot)⟩

lemma Extends.mono (h : p.Extends slots literals' q) (hle : literals ≤ literals') :
    p.Extends slots literals q :=
  ⟨h.heap, fun slot hslot => h.locals slot fun number hnumber =>
    hslot number (Nat.le_trans hle hnumber)⟩

/-- Variables keep their values. -/
lemma Extends.variable {name : String} (h : p.Extends slots literals q)
    (hslot : slots.get? (.var name) = some slot) :
    q.locals[slot]?.getD .null = p.locals[slot]?.getD .null :=
  h.locals slot fun _ _ hget => by simpa using Slots.get?_inj hslot hget

/-- So do the slots of literals that have been begun before. -/
lemma Extends.literal {number : Nat} (h : p.Extends slots literals q)
    (hslot : slots.get? (.listLiteral number) = some slot) (hlt : number < literals) :
    q.locals[slot]?.getD .null = p.locals[slot]?.getD .null := by
  refine h.locals slot fun other hle hget => ?_
  obtain rfl : number = other := by simpa using Slots.get?_inj hslot hget
  omega

end Point

/-- **A value has been read** since the point `p`: the run has come to `pc` with one value more on
the stack, and it shows a sight of what is there at `o`. -/
inductive Site.Reads (s : Site) (slots : Slots) (literals hi : Nat) (o p q : Point) (pc : Nat) :
    Option Sight → Prop
  | mk {r : Point} {v : Value} {sight : Sight} :
    r.pc = pc → s.Walks hi r q → r.stack = v :: p.stack →
      p.Extends slots literals r →
      Shows o.world.heap r.world.heap p.world.heap.objects.size v sight →
      Reads s slots literals hi o p q pc (some sight)

lemma Site.Reads.mono {s : Site} {slots : Slots} {literals literals' hi pc : Nat} {o p q : Point}
    {sight? : Option Sight} (h : s.Reads slots literals' hi o p q pc sight?)
    (hle : literals ≤ literals') :
    s.Reads slots literals hi o p q pc sight? := by
  cases h with
  | mk hr hrest hstack hextends hshows => exact .mk hr hrest hstack (hextends.mono hle) hshows

/-- **Two values have been read** since the point `p`; `middle` has been carried out in between, on
the first of them. -/
inductive Site.ReadsTwo (s : Site) (slots : Slots) (literals hi : Nat) (o p q : Point) (pc : Nat)
    (middle : List Instruction) : Option Sight → Option Sight → Prop
  | mk {a b c : Point} {v w v' : Value} {sight sight' : Sight} : a.stack = v :: p.stack →
      s.Ran middle a b → b.stack = w :: p.stack → c.pc = pc → s.Walks hi c q →
      c.stack = v' :: w :: p.stack → p.Extends slots literals c →
      Shows o.world.heap c.world.heap p.world.heap.objects.size v sight →
      Shows o.world.heap c.world.heap p.world.heap.objects.size v' sight' →
      ReadsTwo s slots literals hi o p q pc middle (some sight) (some sight')

namespace Site.ReadsTwo

open Point

variable {s : Site} {slots : Slots} {literals hi pc : Nat} {o p q : Point}
    {middle : List Instruction}
  {x y : Option Sight}

/-- Two numbers and what an operator makes of them. -/
lemma arith {op : BinaryOp}
    (h : s.ReadsTwo slots literals hi o p q pc [.callVirtual .intValue] x y) (hq : hi ≤ q.pc)
    (hhas : s.Has pc [.callVirtual .intValue, .arith op.intOp, .callStatic .integerValueOf])
    (hhi : pc + 3 ≤ hi) (hop : op.cond? = none) :
    s.Reads slots literals hi o p q (pc + 3) (x.bind fun x => y.bind (x.combined op)) := by
  cases h with
  | @mk a b c v w v' sight sight' hstack hran hb hc hwalk hstack' hextends hshows hshows' =>
      subst hc
      simp only [ran_cons, ran_nil] at hran
      obtain ⟨b', hunbox, rfl⟩ := hran
      obtain ⟨m, rfl, rfl⟩ := hunbox.intValue hstack
      obtain rfl : .raw m = w := by simpa using hb
      have straight : Straight slots [] 2 _ 1 := straight_arith op.intOp 0
      obtain ⟨r, hran, hr, hrest⟩ := hwalk.ran hq hhas straight.depth hhi
      simp only [ran_cons, ran_nil] at hran
      obtain ⟨c₁, hunbox', c₂, harith, c₃, hbox, rfl⟩ := hran
      obtain ⟨k, rfl, rfl⟩ := hunbox'.intValue hstack'
      obtain ⟨z, hz, rfl⟩ := harith.arith rfl
      obtain rfl := hbox.boxInt rfl
      obtain rfl := hshows.of_integer
      obtain rfl := hshows'.of_integer
      have combined : (Sight.value (.integer m)).combined op (.value (.integer k))
          = some (.value (.integer z)) := by
        simp [Sight.combined, hop, hz, Except.toOption]
      rw [Option.bind_some, Option.bind_some, combined]
      exact .mk hr hrest rfl (hextends.trans (extends_of_same rfl (.refl _)))
        (.value (by simp [Sees]))

/-- **A comparison is a truth value**, whatever is compared. -/
lemma compare {op : BinaryOp} {cond : Cond} {n k : Nat}
    (h : s.ReadsTwo slots literals hi o p q pc middle x y) (hop : op.cond? = some cond)
    (before : List Instruction) (branch : Label → Instruction)
    (htarget : ∀ l, (branch l).target? = some l) (hpops : ∀ l, (branch l).pops = k) (hq : hi ≤ q.pc)
    (hhas : s.Has pc (before ++ truthCode branch n))
    (hhi : pc + (before.length + 8) ≤ hi) (hdepth : StackProfile.straightDepth? 2 before = some k)
    (hbefore : ∀ c c' v w, s.Ran before c c' → c.stack = v :: w :: p.stack →
      c' = ⟨c'.pc, c'.stack, c.locals, c.world⟩ ∧ c'.stack.drop k = p.stack) :
    s.Reads slots literals hi o p q (pc + (before.length + 8))
      (x.bind fun x => y.bind (x.combined op)) := by
  cases h with
  | @mk a b c v w v' sight sight' _ _ _ hc hwalk hstack hextends _ _ =>
      subst hc
      obtain ⟨hfirst, htruth⟩ := has_append.1 hhas
      obtain ⟨c', hran, hc', hwalk'⟩ := hwalk.ran hq hfirst hdepth (by omega)
      obtain ⟨hpoint, hdrop⟩ := hbefore c c' v' w hran hstack
      obtain ⟨value, hrest⟩ := hwalk'.truth htarget hpops hq (hc' ▸ htruth) (by omega)
      have combined : sight.combined op sight' = some .truth := by simp [Sight.combined, hop]
      rw [Option.bind_some, Option.bind_some, combined]
      refine .mk (by rw [hc', Nat.add_assoc]) hrest (by rw [hdrop])
        (hextends.trans (extends_of_same (by rw [hpoint]) ?_)) .truth
      rw [hpoint]
      exact .refl _

/-- **An element is read out of a list.** -/
lemma index {element : Ty} (h : s.ReadsTwo slots literals hi o p q pc [] x y)
    (hgrounded : o.world.heap.Guards ∅) (hfrom : o.Extends slots 0 p) (hq : hi ≤ q.pc)
    (hhas : s.Has pc (.callVirtual .intValue :: .callVirtual .listGet :: elementCode element))
    (hhi : pc + ((elementCode element).length + 2) ≤ hi) :
    s.Reads slots literals hi o p q (pc + ((elementCode element).length + 2))
      (x.bind fun x => y.bind (x.item? o.world.heap)) := by
  cases h with
  | @mk a b c v w v' sight sight' hstack hran hb hc hwalk hstack' hextends hshows hshows' =>
      subst hc
      obtain rfl := ran_nil.1 hran
      obtain rfl : v = w := by simpa [hstack] using hb
      have straight : Straight slots [] 2 _ 1 := straight_index element 0
      obtain ⟨r, hran, hr, hrest⟩ := hwalk.ran hq hhas straight.depth hhi
      simp only [ran_cons] at hran
      obtain ⟨c₁, hunbox, c₂, hget, hcast⟩ := hran
      obtain ⟨k, rfl, rfl⟩ := hunbox.intValue hstack'
      obtain ⟨array, items, place, hbacking, hplace, rfl⟩ := hget.listGet rfl
      obtain rfl := hshows'.of_integer
      obtain ⟨l, rfl, hlists⟩ := backing_ok hbacking
      obtain ⟨rfl, hnonneg, hlt⟩ := position_ok hplace
      have within := (hfrom.trans (hextends.mono (Nat.zero_le _))).heap
      obtain ⟨sights, hsights, hall⟩ := hshows.items hgrounded within
        (items?_of_list hlists.1 hlists.2)
      obtain ⟨item, hitem⟩ : ∃ item, items[k.toInt.toNat]? = some item :=
        ⟨_, Array.getElem?_eq_getElem (by omega)⟩
      obtain ⟨seen, hseen⟩ : ∃ seen, sights[k.toInt.toNat]? = some seen :=
        ⟨_, List.getElem?_eq_getElem (by rw [← hall.size]; omega)⟩
      have looked : sight.item? o.world.heap (.value (.integer k)) = some seen := by
        rw [Sight.item?, hsights]
        show (if 0 ≤ k.toInt then sights[k.toInt.toNat]? else none) = some seen
        rw [if_pos hnonneg, hseen]
      have point := ran_elementCode hcast
      rw [hitem, Option.getD_some] at point
      rw [Option.bind_some, Option.bind_some, looked]
      refine .mk hr hrest (by rw [point]) (hextends.trans (extends_of_same (by rw [point]) ?_)) ?_
      · rw [point]
        exact .refl _
      · rw [point]
        exact hall.shows _ item seen hitem hseen

end Site.ReadsTwo

namespace Lowering

open Site Point

variable {s : Site} {env : Env} {scope : ScopeId} {slots : Slots} {t u : Supply} {e : Expr}
  {code last : List Instruction} {literals hi pc : Nat} {o p q : Point}

/-- The sight of an expression from a point. -/
def sightFrom (env : Env) (scope : ScopeId) (slots : Slots) (o : Point) (e : Expr) : Option Sight :=
  e.look env.symbols scope (slots.held o.locals) o.world.heap

lemma LeafCode.reads (h : LeafCode env scope t e code u) (hwithin : u.slots.Within slots)
    (hclear : o.Clear ∅ ∅) (hfrom : o.Extends slots 0 p) (hwalk : s.Walks hi p q) (hq : hi ≤ q.pc)
    (hhas : s.Has p.pc code) (hhi : p.pc + code.length ≤ hi) :
    s.Reads slots literals hi o p q (p.pc + code.length) (sightFrom env scope slots o e) := by
  have straight : Straight slots [] 0 code 1 := h.straight hwithin 0
  obtain ⟨r, hran, hr, hrest⟩ := hwalk.ran hq hhas straight.depth hhi
  rw [sightFrom]
  have pointer : ∀ {name : String}, s.Ran (closureCode name) p r →
      s.Reads slots literals hi o p q (p.pc + code.length) (some .pointer) := by
    intro name hran
    have made := ran_closure hran
    refine .mk hr hrest (by rw [made]) (extends_of_same (by rw [made]) ?_) ?_
    · rw [made]
      exact within_alloc _ _
    · rw [made]
      exact .pointer (Nat.le_refl _) (by rw [get?_alloc, if_pos rfl])
  cases h with
  | int =>
      simp only [ran_cons, ran_nil] at hran
      obtain ⟨a, hint, b, hbox, rfl⟩ := hran
      obtain rfl := hint.int
      obtain rfl := hbox.boxInt rfl
      rw [Expr.look]
      exact .mk hr hrest rfl (extends_of_same rfl (.refl _)) (.value (by simp [Sees]))
  | @bool _ value =>
      simp only [ran_cons, ran_nil] at hran
      obtain ⟨a, hint, b, hbox, rfl⟩ := hran
      obtain rfl := hint.int
      obtain rfl := hbox.boxBool rfl
      rw [Expr.look]
      have boxed : ((if value then 1 else 0 : Int32) != 0) = value := by cases value <;> rfl
      refine .mk hr hrest rfl (extends_of_same rfl (.refl _)) ?_
      rw [boxed]
      exact .value (by simp [Sees])
  | str =>
      simp only [ran_cons, ran_nil] at hran
      obtain ⟨a, htext, rfl⟩ := hran
      obtain rfl := htext.text
      rw [Expr.look]
      exact .mk hr hrest rfl (extends_of_same rfl (within_texts _ _)) (.value (by simp [Sees]))
  | fn hl =>
      rw [Expr.look, if_pos (by simp [SymbolTable.functionBinding?, hl, Binding.fn?])]
      exact pointer hran
  | @var _ name ty _ hty =>
      obtain ⟨a, hload, hcast⟩ := ran_cons.1 hran
      obtain rfl := hload.load
      have slot := Supply.get?_slotOf hwithin
      have held : p.locals[t.slotOf (.var name)]?.getD .null = slots.held o.locals name := by
        rw [hfrom.variable slot, Slots.held, slot]
        rfl
      have seen : o.world.heap.Sees ∅ (slots.held o.locals name) := by
        rw [← held, hfrom.variable slot]
        exact hclear.held _
      have unbound : ¬ (env.symbols.functionBinding? scope name).isSome := by
        intro hsome
        obtain ⟨binding, hbinding⟩ := Option.isSome_iff_exists.1 hsome
        rw [SymbolTable.functionBinding?_eq_some] at hbinding
        simp [variableTy?, hbinding] at hty
      have cast := ran_downcast hcast
      rw [held] at cast
      rw [Expr.look, if_neg unbound]
      refine .mk hr hrest (by rw [cast]) (extends_of_same (by rw [cast]) ?_) (.value seen)
      rw [cast]
      exact .refl _
  | pointer =>
      rw [Expr.look]
      exact pointer hran

lemma UnaryCode.reads {operand : Expr} (h : UnaryCode t e operand last u)
    (hcounted : e.counted = []) (hwithin : u.slots.Within slots) (hgrounded : o.world.heap.Guards ∅)
    (hfrom : o.Extends slots 0 p)
    (hreads : s.Reads slots literals hi o p q pc (sightFrom env scope slots o operand))
    (hq : hi ≤ q.pc) (hhas : s.Has pc last) (hhi : pc + last.length ≤ hi) :
    s.Reads slots literals hi o p q (pc + last.length) (sightFrom env scope slots o e) := by
  generalize hsight : sightFrom env scope slots o operand = seen at hreads
  cases hreads with
  | @mk a v sight ha hwalk hstack hextends hshows =>
      subst ha
      have straight := h.straight hwithin 0
      obtain ⟨r, hran, hr, hrest⟩ := hwalk.ran hq hhas straight.depth hhi
      have within := (hfrom.trans (hextends.mono (Nat.zero_le _))).heap
      rw [sightFrom] at hsight ⊢
      cases h with
      | neg _ =>
          simp only [ran_cons, ran_nil] at hran
          obtain ⟨a₁, hunbox, a₂, hneg, a₃, hbox, rfl⟩ := hran
          obtain ⟨x, rfl, rfl⟩ := hunbox.intValue hstack
          obtain rfl := hneg.neg rfl
          obtain rfl := hbox.boxInt rfl
          obtain rfl := hshows.of_integer
          rw [Expr.look, hsight, Option.bind_some, Sight.changed]
          exact .mk hr hrest rfl (hextends.trans (extends_of_same rfl (.refl _)))
            (.value (by simp [Sees]))
      | not _ =>
          simp only [ran_cons, ran_nil] at hran
          obtain ⟨a₁, hunbox, a₂, hone, a₃, hxor, a₄, hbox, rfl⟩ := hran
          obtain ⟨x, rfl⟩ := hunbox.booleanValue hstack
          obtain rfl := hone.int
          obtain ⟨z, -, rfl⟩ := hxor.arith rfl
          obtain rfl := hbox.boxBool rfl
          rw [Expr.look, hsight, Option.bind_some, Sight.changed]
          exact .mk hr hrest rfl (hextends.trans (extends_of_same rfl (.refl _))) .truth
      | count _ hop hname _ => simp [Expr.counted, hop, hname] at hcounted
      | lenText _ =>
          simp only [ran_cons, ran_nil] at hran
          obtain ⟨a₁, hlength, a₂, hbox, rfl⟩ := hran
          obtain ⟨ident, text, rfl, rfl⟩ := hlength.stringLength hstack
          obtain rfl := hbox.boxInt rfl
          obtain rfl := hshows.of_text
          rw [Expr.look, hsight]
          exact .mk hr hrest rfl (hextends.trans (extends_of_same rfl (.refl _)))
            (.value (by simp [Sees]))
      | lenList _ =>
          simp only [ran_cons, ran_nil] at hran
          obtain ⟨a₁, hsize, a₂, hbox, rfl⟩ := hran
          obtain ⟨items, hitems, rfl⟩ := hsize.listSize hstack
          obtain rfl := hbox.boxInt rfl
          obtain ⟨sights, hsights, hall⟩ := hshows.items hgrounded within hitems
          rw [Expr.look, hsight, Option.bind_some, Sight.extent?_of_items hsights, ← hall.size]
          exact .mk hr hrest rfl (hextends.trans (extends_of_same rfl (.refl _)))
            (.value (by simp [Sees]))
      | chop _ =>
          simp only [chopCode, ran_cons, ran_nil] at hran
          obtain ⟨a₁, hdup, a₂, hlength, a₃, hone, a₄, hsub, a₅, hzero, a₆, hswap, a₇, hcut, rfl⟩ :=
            hran
          obtain rfl := hdup.dup hstack
          obtain ⟨ident, text, rfl, rfl⟩ := hlength.stringLength rfl
          obtain rfl := hone.int
          obtain ⟨z, hz, rfl⟩ := hsub.arith rfl
          obtain rfl : lastPlace text = z := Except.ok.inj hz
          obtain rfl := hzero.zero
          obtain rfl := hswap.swap rfl
          obtain ⟨reply, heap, hperform, hdone⟩ := hcut.call (by decide)
            [.raw 0, .raw (lastPlace text)]
            rfl rfl
          obtain rfl := hshows.of_text
          rw [perform_substring] at hperform
          split at hperform
          · simp at hperform
          · obtain ⟨rfl, rfl⟩ := Prod.mk.inj (Except.ok.inj hperform)
            obtain rfl := hdone _ rfl
            rw [Expr.look, hsight, Option.bind_some, Sight.chopped]
            exact .mk hr hrest rfl (hextends.trans (extends_of_same rfl (within_texts _ _)))
              (.value (by simp [Sees]))

/-- The first of two operands is unboxed or left as it is. -/
lemma BinaryCode.exists_unboxing {lhs rhs : Expr} {middle : List Instruction}
    (h : BinaryCode t e lhs rhs middle last u) : ∃ ty, middle = unboxing ty := by
  cases h with
  | arith _ _ _ => exact ⟨.int, rfl⟩
  | scalar _ _ => exact ⟨_, rfl⟩
  | text _ _ | identity _ _ | index _ _ => exact ⟨.string, rfl⟩

/-- **Two operands are read**, one after the other. -/
lemma BinaryCode.readsTwo {lhs rhs : Expr} {middle : List Instruction} {pc' : Nat}
    {x y : Option Sight} (h : BinaryCode t e lhs rhs middle last u) (hfrom : o.Extends slots 0 p)
    (hfirst : s.Reads slots literals hi o p q pc x) (hq : hi ≤ q.pc) (hmiddle : s.Has pc middle)
    (hle : pc + middle.length ≤ hi)
    (hsecond : ∀ b, o.Extends slots 0 b → b.pc = pc + middle.length → s.Walks hi b q →
      s.Reads slots literals hi o b q pc' y) :
    s.ReadsTwo slots literals hi o p q pc' middle x y := by
  cases hfirst with
  | @mk a v sight ha hwalk hstack hextends hshows =>
  subst ha
  have straight : Straight slots [] 1 middle 1 := h.straight 0
  obtain ⟨b, hran, hb, hwalk⟩ := hwalk.ran hq hmiddle straight.depth hle
  obtain ⟨ty, hty⟩ := h.exists_unboxing
  obtain ⟨w, hpoint⟩ := ran_unboxing (hty ▸ hran) hstack
  have extends_b : a.Extends slots literals b :=
    extends_of_same (by rw [hpoint]) (by rw [hpoint]; exact .refl _)
  have started := hextends.trans extends_b
  cases hsecond b (hfrom.trans (started.mono (Nat.zero_le _))) hb hwalk with
  | @mk c v' sight' hc hwalk' hstack' hextends' hshows' =>
      have stack : b.stack = w :: p.stack := by rw [hpoint]
      exact .mk hstack hran stack hc hwalk' (hstack'.trans (by rw [stack]))
        (started.trans hextends')
        (hshows.within (extends_b.trans hextends').heap (Nat.le_refl _))
        (hshows'.within (.refl _) started.heap.size_le)

/-- **An operator and its operands read a value.** -/
lemma BinaryCode.reads {lhs rhs : Expr} {middle : List Instruction}
    (h : BinaryCode t e lhs rhs middle last u) (hgrounded : o.world.heap.Guards ∅)
    (hfrom : o.Extends slots 0 p)
    (hreads : s.ReadsTwo slots literals hi o p q pc middle (sightFrom env scope slots o lhs)
      (sightFrom env scope slots o rhs)) (hq : hi ≤ q.pc) (hhas : s.Has pc last)
    (hhi : pc + last.length ≤ hi) :
    s.Reads slots literals hi o p q (pc + last.length) (sightFrom env scope slots o e) := by
  simp only [sightFrom] at hreads ⊢
  cases h with
  | arith hop _ _ =>
      rw [Expr.look]
      exact hreads.arith hq hhas hhi hop
  | @scalar _ _ _ _ _ cond' hop _ =>
      rw [List.length_append] at hhi ⊢
      rw [Expr.look]
      have straight : Straight slots [] 2 (unboxing rhs.ty) 2 := straight_unbox _ 1
      refine hreads.compare hop (unboxing rhs.ty) (.ifInt cond') (fun _ => rfl)
        (fun _ => rfl) hq hhas
        hhi straight.depth fun c c' v w hran hstack => ?_
      obtain ⟨w', hpoint⟩ := ran_unboxing hran hstack
      rw [hpoint]
      exact ⟨rfl, rfl⟩
  | @text _ op _ _ _ hop _ =>
      rw [Expr.look]
      have compared : ∀ c c' v w, s.Ran [.callVirtual .stringEquals] c c' →
          c.stack = v :: w :: p.stack →
          c' = ⟨c'.pc, c'.stack, c.locals, c.world⟩ ∧ c'.stack.drop 1 = p.stack := by
        intro c c' v w hran hstack
        simp only [ran_cons, ran_nil] at hran
        obtain ⟨c₁, hequals, rfl⟩ := hran
        obtain ⟨x, rfl⟩ := hequals.stringEquals hstack
        exact ⟨rfl, rfl⟩
      exact hreads.compare hop [.callVirtual .stringEquals]
        (if op = .eq then .ifNonzero else .ifZero)
        (fun _ => by split <;> rfl) (fun _ => by split <;> rfl) hq hhas hhi rfl compared
  | @identity _ op _ _ _ hop _ =>
      rw [Expr.look]
      refine hreads.compare hop [] (.ifRef (op = .eq)) (fun _ => rfl) (fun _ => rfl) hq hhas hhi rfl
        fun c c' v w hran hstack => ?_
      obtain rfl := ran_nil.1 hran
      exact ⟨rfl, by rw [hstack]; rfl⟩
  | @index note _ _ element hbase hindex =>
      have looked : (Expr.index note lhs [rhs]).look env.symbols scope (slots.held o.locals)
          o.world.heap = (lhs.look env.symbols scope (slots.held o.locals) o.world.heap).bind
            fun x => (rhs.look env.symbols scope (slots.held o.locals) o.world.heap).bind
              (x.item? o.world.heap) := by
        rw [Expr.look, Expr.lookIn, Expr.lookIn]
        cases rhs.look env.symbols scope (slots.held o.locals) o.world.heap <;>
          simp [hindex, Sight.stored, Ty.isList]
      rw [looked]
      exact hreads.index hgrounded hfrom hq hhas hhi

/-! ## List literals -/

/-- **An element is read**, and copied if it is a list. -/
lemma reads_copied {ty : Ty} {x : Option Sight} (hgrounded : o.world.heap.Guards ∅)
    (hfrom : o.Extends slots 0 p) (hwalk : s.Walks hi p q) (hq : hi ≤ q.pc)
    (hhas : s.Has p.pc (openCopy ty ++ code ++ closeCopy ty))
    (hhi : p.pc + (openCopy ty ++ code ++ closeCopy ty).length ≤ hi)
    (hread : ∀ a, o.Extends slots 0 a → s.Walks hi a q → s.Has a.pc code → a.pc + code.length ≤ hi →
      s.Reads slots literals hi o a q (a.pc + code.length) x) :
    s.Reads slots literals hi o p q (p.pc + (openCopy ty ++ code ++ closeCopy ty).length)
      (x.bind (Sight.stored o.world.heap ty)) := by
  by_cases hlist : ty.isList = true
  · simp only [openCopy, closeCopy, if_pos hlist, has_append, List.length_append, List.length_cons,
      List.length_nil, Nat.zero_add] at hhas hhi ⊢
    obtain ⟨⟨hopen, hcode⟩, hclose⟩ := hhas
    obtain ⟨a, hran, ha, hwalk⟩ := hwalk.ran hq hopen (d := 0) (e := 2) rfl (by simp; omega)
    simp only [ran_cons, ran_nil] at hran
    obtain ⟨a₁, hnew, a₂, hdup, rfl⟩ := hran
    obtain rfl := hnew.new
    have opened := hdup.dup rfl
    change a.pc = p.pc + 2 at ha
    have made : p.Extends slots literals a :=
      extends_of_same (by rw [opened]) (by rw [opened]; exact within_alloc _ _)
    have read := hread a (hfrom.trans (made.mono (Nat.zero_le _))) hwalk (ha ▸ hcode) (by omega)
    cases read with
    | @mk b v sight hb hwalk' hstack hextends hshows =>
        have waiting : b.world.heap.get? p.world.heap.objects.size =
            some (.uninit ClassName.list) :=
          hextends.heap _ _ (by rw [opened, get?_alloc, if_pos rfl])
        rw [opened] at hstack
        obtain ⟨r, hcopy, hrest⟩ := hwalk'.next hq (has_cons.1 hclose).1 (by omega) (by omega)
        obtain ⟨items, hitems, rfl⟩ := hcopy.listCopy hstack waiting
        have started := made.trans hextends
        have size : a.world.heap.objects.size = p.world.heap.objects.size + 1 := by
          rw [opened, size_alloc]
        obtain ⟨sights, hsights, hshows'⟩ := hshows.copy hgrounded
          (hfrom.trans (started.mono (Nat.zero_le _))).heap hitems waiting (by omega)
        rw [Option.bind_some, Sight.stored, if_pos hlist, hsights, Option.map_some]
        refine .mk (by simp only; omega) hrest rfl ⟨?_, started.locals⟩ hshows'
        exact started.heap.wrapCopy (get?_size _) waiting items
  · simp only [openCopy, closeCopy, if_neg hlist, List.nil_append, List.append_nil] at hhas hhi ⊢
    have read := hread p hfrom hwalk hhas hhi
    cases read with
    | mk hr hrest hstack hextends hshows =>
        rw [Option.bind_some, Sight.stored, if_neg hlist]
        exact .mk hr hrest hstack hextends hshows

/-- **An array is being filled** with values that show some sights; it has been made since the point
`b`, and nothing else has changed since. -/
structure Assembles (slots : Slots) (literals : Nat) (o b : Point) (slot a : Nat)
    (items : Array Value) (sights : List Sight) (p : Point) : Prop where
  since : b.Extends slots literals p
  fresh : b.world.heap.get? a = none
  slot : p.locals[slot]?.getD .null = .ref a
  array : p.world.heap.get? a = some (.array items)
  shows : ShowsAll o.world.heap p.world.heap (a + 1) items sights

section Assembles

variable {b r : Point} {slot a number literals' : Nat} {items : Array Value} {sights : List Sight}

/-- It starts without items. -/
lemma assembles_array (hnumber : slots.get? (.listLiteral number) = some slot)
    (hle : literals ≤ number)
    (hr : r = ⟨r.pc, p.stack, writeLocal p.locals slot (.ref p.world.heap.objects.size),
      { p.world with heap := (p.world.heap.alloc (.array #[])).2 }⟩) :
    Assembles slots literals o p slot p.world.heap.objects.size #[] [] r := by
  refine ⟨⟨?_, fun other hother => ?_⟩, get?_size _, ?_, ?_, rfl, by simp⟩
  · rw [hr]
    exact within_alloc _ _
  · have apart : other ≠ slot := by
      rintro rfl
      exact hother number hle hnumber
    rw [hr, getD_writeLocal, if_neg apart]
  · rw [hr, getD_writeLocal, if_pos rfl]
  · rw [hr, get?_alloc, if_pos rfl]

/-- The code of an element leaves the array alone. -/
lemma Assembles.evolve (h : Assembles slots literals o b slot a items sights p)
    (hextends : p.Extends slots literals' r)
    (hnumber : slots.get? (.listLiteral number) = some slot) (hlt : number < literals')
    (hle : literals ≤ literals') : Assembles slots literals o b slot a items sights r where
  since := h.since.trans (hextends.mono hle)
  fresh := h.fresh
  slot := (hextends.literal hnumber hlt).trans h.slot
  array := hextends.heap _ _ h.array
  shows := h.shows.transfer (fun x obj _ hobj => hextends.heap x obj hobj) (Nat.le_refl _)

/-- A value is added to it. -/
lemma Assembles.push (h : Assembles slots literals o b slot a items sights p) {v : Value}
    {sight : Sight} (hv : Shows o.world.heap p.world.heap (a + 1) v sight) (pc : Nat)
    (stack : List Value) :
    Assembles slots literals o b slot a (items.push v) (sights ++ [sight]) ⟨pc, stack, p.locals,
      { p.world with heap := p.world.heap.set a (.array (items.push v)) }⟩ where
  since := ⟨h.since.heap.set h.fresh h.array _, h.since.locals⟩
  fresh := h.fresh
  slot := h.slot
  array := by rw [get?_set h.array, if_pos rfl]
  shows := by
    refine (h.shows.push hv).transfer (fun x obj hx hobj => ?_) (Nat.le_refl _)
    rw [get?_set h.array, if_neg (by omega)]
    exact hobj

/-- **An element is added to it.** -/
lemma Assembles.add {ty : Ty} {x : Option Sight}
    (h : Assembles slots literals o b slot a items sights p) (hgrounded : o.world.heap.Guards ∅)
    (hfrom : o.Extends slots 0 b) (hnumber : slots.get? (.listLiteral number) = some slot)
    (hlt : number < literals') (hle : literals ≤ literals') (hwalk : s.Walks hi p q)
    (hq : hi ≤ q.pc) (hhas : s.Has p.pc (addCode slot ty code))
    (hhi : p.pc + (addCode slot ty code).length ≤ hi)
    (hread : ∀ a, o.Extends slots 0 a → s.Walks hi a q → s.Has a.pc code → a.pc + code.length ≤ hi →
      s.Reads slots literals' hi o a q (a.pc + code.length) x) :
    ∃ r v sight, r.pc = p.pc + (addCode slot ty code).length ∧ s.Walks hi r q ∧ r.stack = p.stack ∧
      Assembles slots literals o b slot a (items.push v) (sights ++ [sight]) r ∧
      x.bind (Sight.stored o.world.heap ty) = some sight := by
  have length : (addCode slot ty code).length =
      (openCopy ty ++ code ++ closeCopy ty).length + 3 := by
    simp only [addCode, List.length_append, List.length_cons, List.length_nil]
    omega
  rw [length] at hhi ⊢
  have parts : s.Has p.pc (.load slot :: ((openCopy ty ++ code ++ closeCopy ty) ++
    [.callVirtual .arrayAdd, .pop])) := hhas
  obtain ⟨hload, hbehind⟩ := has_cons.1 parts
  obtain ⟨hcopied, hadd⟩ := has_append.1 hbehind
  simp only [has_cons, has_nil, and_true] at hadd
  obtain ⟨a₁, hexec, hwalk₁⟩ := hwalk.next hq hload rfl (by omega)
  have loaded := hexec.load
  rw [h.slot] at loaded
  have extends₁ : p.Extends slots literals' a₁ :=
    extends_of_same (by rw [loaded]) (by rw [loaded]; exact .refl _)
  have place : a₁.pc = p.pc + 1 := by rw [loaded]
  have since := (h.since.mono (Nat.zero_le _)).trans (extends₁.mono (Nat.zero_le _))
  have read := reads_copied hgrounded (hfrom.trans since) hwalk₁ hq (place ▸ hcopied)
    (by omega) hread
  generalize x.bind (Sight.stored o.world.heap ty) = seen at read
  cases read with
  | @mk r₁ v sight hr₁ hwalk₂ hstack hextends hshows =>
      have fills := h.evolve (extends₁.trans hextends) hnumber hlt hle
      rw [loaded] at hstack
      rw [place] at hr₁
      obtain ⟨r₂, hexec₂, hwalk₃⟩ := hwalk₂.next hq hadd.1 hr₁ (by omega)
      obtain rfl := hexec₂.arrayAdd hstack fills.array
      obtain ⟨r₃, hexec₃, hwalk₄⟩ := hwalk₃.next hq hadd.2 (by simp only; omega) (by omega)
      obtain rfl := hexec₃.pop rfl
      have lo : a + 1 ≤ a₁.world.heap.objects.size := by
        rw [loaded]
        exact lt_size_of_get? h.array
      exact ⟨_, v, sight, by simp only; omega, hwalk₄, rfl,
        fills.push (hshows.within (.refl _) lo) _ _, rfl⟩

/-- **A list is put around it.** -/
lemma Assembles.wrap (h : Assembles slots literals o p slot a items sights b)
    (hran : s.Ran (wrapCode slot) b r) (hr : r.pc = pc) (hrest : s.Walks hi r q)
    (hstack : b.stack = p.stack) : s.Reads slots literals hi o p q pc (some (.list sights)) := by
  have wrapped := ran_wrap hran h.slot h.array
  have made : b.Extends slots literals r :=
    extends_of_same (by rw [wrapped]) (by rw [wrapped]; exact within_alloc _ _)
  have fresh : p.world.heap.objects.size ≤ a := Array.getElem?_eq_none_iff.1 h.fresh
  have list : r.world.heap.get? b.world.heap.objects.size = some (.list (.ref a)) := by
    rw [wrapped, get?_alloc, if_pos rfl]
  have moved : ShowsAll o.world.heap r.world.heap p.world.heap.objects.size items sights :=
    h.shows.transfer (fun x obj _ hobj => made.heap x obj hobj) (by omega)
  exact .mk hr hrest (by rw [wrapped, hstack]) (h.since.trans made)
    (.list h.since.heap.size_le fresh list (made.heap _ _ h.array) moved.size moved.shows)

end Assembles

mutual

/-- **A run through the code of an expression without effects reads its sight.** -/
theorem ExprCode.reads {depth : Nat} {t u : Supply} {e : Expr} {code : List Instruction} {p : Point}
    (h : ExprCode env scope depth t e code u) (hcalls : e.calls = []) (hcounted : e.counted = [])
    (hwithin : u.slots.Within slots) (hclear : o.Clear ∅ ∅) (hfrom : o.Extends slots 0 p)
    (hwalk : s.Walks hi p q) (hq : hi ≤ q.pc) (hhas : s.Has p.pc code)
    (hhi : p.pc + code.length ≤ hi) :
    s.Reads slots t.literals hi o p q (p.pc + code.length) (sightFrom env scope slots o e) := by
  match h with
  | .leaf hleaf => exact hleaf.reads hwithin hclear hfrom hwalk hq hhas hhi
  | .unary _ hoperand hlast =>
      obtain ⟨hfirst, hrest⟩ := has_append.1 hhas
      rw [List.length_append, ← Nat.add_assoc] at hhi ⊢
      have calls := hlast.calls.symm.trans hcalls
      have counted := List.subset_nil.1 (hcounted ▸ hlast.counted)
      have operand := hoperand.reads calls counted (hlast.within.slots.trans hwithin) hclear
        hfrom hwalk
        hq hfirst (by omega)
      exact hlast.reads hcounted hwithin hclear.sealed.grounded hfrom operand hq hrest hhi
  | .binary _ hlhs _ hrhs hlast =>
      simp only [has_append, List.length_append, ← Nat.add_assoc] at hhas hhi ⊢
      obtain ⟨⟨⟨hfirst, hmiddle⟩, hsecond⟩, hrest⟩ := hhas
      obtain ⟨calls, calls'⟩ := List.append_eq_nil_iff.1 (hlast.calls.symm.trans hcalls)
      have counted := List.subset_nil.1 (hcounted ▸ hlast.counted.1)
      have counted' := List.subset_nil.1 (hcounted ▸ hlast.counted.2)
      have within := hlast.within.slots.trans hwithin
      have first := hlhs.reads calls counted (hrhs.within.slots.trans within) hclear hfrom hwalk hq
        hfirst (by omega)
      refine hlast.reads hclear.sealed.grounded hfrom
        (hlast.readsTwo hfrom first hq hmiddle (by omega) fun b hb hpc hwalk' => ?_) hq hrest hhi
      have second := hrhs.reads calls' counted' within hclear hb hwalk' hq (hpc ▸ hsecond)
        (by omega)
      rw [hpc] at second
      exact second.mono hlhs.within.literals
  | @ExprCode.list _ _ _ t u note es codes _ helements =>
      simp only [has_append, List.length_append, ← Nat.add_assoc] at hhas hhi ⊢
      obtain ⟨⟨harray, hcodes⟩, hwrap⟩ := hhas
      rw [Expr.calls] at hcalls
      rw [Expr.counted] at hcounted
      have slot := Supply.get?_literal (helements.within.slots.trans hwithin)
      obtain ⟨a, hran, ha, hwalk'⟩ := hwalk.ran hq harray (straight_arrayCode _ 0) (by omega)
      have fills := assembles_array (o := o) slot (Nat.le_refl _) (ran_array hran)
      obtain ⟨b, items, sights, hb, hwalk', hstack, hfills, hlook⟩ :=
        helements.reads hcalls hcounted
        hwithin hclear hfrom slot (Nat.lt_succ_self _) (Nat.le_succ _) fills hwalk' hq (ha ▸ hcodes)
        (by omega)
      obtain ⟨r, hran', hr, hrest⟩ := hwalk'.ran hq (by rwa [hb, ha]) (straight_wrapCode _ 0)
        (by omega)
      have stack : b.stack = p.stack := by rw [hstack, ran_array hran]
      rw [sightFrom, Expr.look, hlook, Option.map_some]
      exact hfills.wrap hran' (by omega) hrest stack
  | .call _ _ _ => simp [Expr.calls] at hcalls

theorem ElementsCode.reads {depth slot : Nat} {t u : Supply} {es : List Expr}
    {code : List Instruction} {literals number a : Nat} {items : Array Value} {sights : List Sight}
    {b p : Point} (h : ElementsCode env scope depth slot t es code u)
    (hcalls : Expr.callsIn es = []) (hcounted : Expr.countedIn es = [])
    (hwithin : u.slots.Within slots) (hclear : o.Clear ∅ ∅) (hfrom : o.Extends slots 0 b)
    (hnumber : slots.get? (.listLiteral number) = some slot) (hlt : number < t.literals)
    (hle : literals ≤ t.literals) (hfills : Assembles slots literals o b slot a items sights p)
    (hwalk : s.Walks hi p q) (hq : hi ≤ q.pc) (hhas : s.Has p.pc code)
    (hhi : p.pc + code.length ≤ hi) :
    ∃ r items' sights', r.pc = p.pc + code.length ∧ s.Walks hi r q ∧ r.stack = p.stack ∧
      Assembles slots literals o b slot a items' (sights ++ sights') r ∧
      Expr.lookIn env.symbols scope (slots.held o.locals) o.world.heap es = some sights' := by
  match h with
  | .nil => exact ⟨p, items, [], rfl, hwalk, rfl, by rwa [List.append_nil], rfl⟩
  | @ElementsCode.cons _ _ _ _ _ _ _ e rest own codes _ he hrest =>
      rw [Expr.callsIn, List.append_eq_nil_iff] at hcalls
      rw [Expr.countedIn, List.append_eq_nil_iff] at hcounted
      rw [← addCode] at hhas hhi ⊢
      rw [List.length_append] at hhi ⊢
      obtain ⟨hown, hcodes⟩ := has_append.1 hhas
      have within := hrest.within.slots.trans hwithin
      obtain ⟨r, v, sight, hr, hwalk', hstack, hfills', hsight⟩ :=
        hfills.add hclear.sealed.grounded hfrom
        hnumber hlt hle hwalk hq hown (by omega) fun a ha hwalk hhas hhi =>
          he.reads hcalls.1 hcounted.1 within hclear ha hwalk hq hhas hhi
      obtain ⟨r', items', sights', hr', hwalk'', hstack', hfills'', hlook⟩ := hrest.reads hcalls.2
        hcounted.2 hwithin hclear hfrom hnumber (Nat.lt_of_lt_of_le hlt he.within.literals)
        (Nat.le_trans hle he.within.literals) hfills' hwalk' hq (hr ▸ hcodes) (by omega)
      refine ⟨r', items', sight :: sights', by omega, hwalk'', hstack'.trans hstack, ?_, ?_⟩
      · rwa [List.append_assoc] at hfills''
      · obtain ⟨seen, hseen, hcopied⟩ := Option.bind_eq_some_iff.1 hsight
        rw [sightFrom] at hseen
        simp [Expr.lookIn, hseen, hcopied, hlook]

end

/-- **The value of an expression shows its sight**, from wherever it is looked at: between the
points `a` and `b` nothing has changed that can be seen, and the value is what is seen. -/
def Sighted (env : Env) (scope : ScopeId) (slots : Slots) (e : Expr) (a : Point) (v : Value)
    (b : Point) : Prop :=
  ∀ o : Point, o.Clear ∅ ∅ → o.Extends slots 0 a → a.Extends slots 0 b ∧
    ∃ sight lo, sightFrom env scope slots o e = some sight ∧
      Shows o.world.heap b.world.heap lo v sight

/-- A run through the code of an expression without effects ends with such a value. -/
lemma ExprCode.sighted {depth : Nat} {a b : Point} {v : Value}
    (h : ExprCode env scope depth t e code u) (hcalls : e.calls = []) (hcounted : e.counted = [])
    (hwithin : u.slots.Within slots) (hwalk : s.Walks (a.pc + code.length) a b)
    (hhas : s.Has a.pc code) (hpc : b.pc = a.pc + code.length) (hstack : b.stack = v :: a.stack) :
    Sighted env scope slots e a v b := by
  intro o hclear hfrom
  have reads := h.reads hcalls hcounted hwithin hclear hfrom hwalk (Nat.le_of_eq hpc.symm) hhas
    (Nat.le_refl _)
  generalize hsight : sightFrom env scope slots o e = seen at reads
  cases reads with
  | @mk r w sight hr hrest hstack' hextends hshows =>
      obtain rfl := hrest.eq_of_le (Nat.le_of_eq hr.symm)
      obtain rfl : w = v := by simpa [hstack'] using hstack
      exact ⟨hextends.mono (Nat.zero_le _), sight, _, rfl, hshows⟩

/-- **A number is the same number**, evaluated once more. -/
lemma Sighted.same {a b a' b' : Point} {k k' : Int32}
    (h : Sighted env scope slots e a (.integer k) b)
    (h' : Sighted env scope slots e a' (.integer k') b') (hclear : o.Clear ∅ ∅)
    (ha : o.Extends slots 0 a) (ha' : o.Extends slots 0 a') : k' = k := by
  obtain ⟨-, sight, lo, hsight, hshows⟩ := h o hclear ha
  obtain ⟨-, sight', lo', hsight', hshows'⟩ := h' o hclear ha'
  obtain rfl := hshows.of_integer
  obtain rfl := hshows'.of_integer
  simpa [hsight] using hsight'.symm

end Lowering

end StackBackend
