import StackBackend.Proofs.Storage.Evaluations
import StackBackend.Proofs.Storage.Faithful

/-!
# Compound assignment to an element

`xs[i] op= v` is lowered as `xs[i] = xs[i] op v`, with the code of `i` written out twice: once for
the place that is stored to, once for the place that is read.  So `i` is evaluated twice, before
`v`, and its two values can be different.

* `Heap.Combines` — an element of a list becomes the combination of an element with a number;
* `Site.Updates` — the statement as a whole: two evaluations of the index, one of the value, and an
  element of the list that becomes the combination of what was read with the value;
* `combines_element` — every run that completes the statement does just that.  If the index calls
  nothing and counts nothing, its two values are the same, and one element is read, modified and
  written back.
-/

namespace StackBackend

open Heap Lowering Machine

namespace Lowering

open Site

variable {s : Site} {p a b q : Point}

/-! ## The parts of the statement -/

/-- The list is fetched. -/
lemma ran_fetch {slot : Nat} {owner : String} (h : s.Ran [.load slot, .cast owner] p a) :
    a = ⟨a.pc, p.locals[slot]?.getD .null :: p.stack, p.locals, p.world⟩ := by
  simp only [ran_cons, ran_nil] at h
  obtain ⟨a₁, hload, a₂, hcast, rfl⟩ := h
  rw [hcast.cast, hload.load]

/-- The place to store to is a number; the list is fetched again. -/
lemma ran_refetch {slot : Nat} {ty : Ty} {v : Value} {stack : List Value}
    (h : s.Ran (.callVirtual .intValue :: .load slot :: downcast ty) b a)
    (hstack : b.stack = v :: stack) : ∃ k, v = .integer k ∧
      a = ⟨a.pc, b.locals[slot]?.getD .null :: .raw k :: stack, b.locals, b.world⟩ := by
  simp only [ran_cons] at h
  obtain ⟨b₁, hunbox, b₂, hload, hcast⟩ := h
  obtain ⟨k, rfl, rfl⟩ := hunbox.intValue hstack
  refine ⟨k, rfl, ?_⟩
  rw [ran_downcast hcast, hload.load]

/-- The place to read is a number; the element there is a number. -/
lemma ran_element {element : Ty} {v v' : Value} {stack : List Value}
    (h : s.Ran (.callVirtual .intValue :: .callVirtual .listGet ::
      (elementCode element ++ [.callVirtual .intValue])) b a)
    (hstack : b.stack = v' :: v :: stack) :
    ∃ k array items place x, v' = .integer k ∧ b.world.heap.backing v = .ok (array, items) ∧
      position items k = .ok place ∧ items[place]?.getD .null = .integer x ∧
      a = ⟨a.pc, .raw x :: stack, b.locals, b.world⟩ := by
  simp only [ran_cons, ran_append, ran_nil] at h
  obtain ⟨b₁, hunbox, b₂, hget, b₃, hcast, b₄, hunbox', rfl⟩ := h
  obtain ⟨k, rfl, rfl⟩ := hunbox.intValue hstack
  obtain ⟨array, items, place, hbacking, hplace, rfl⟩ := hget.listGet rfl
  have cast := ran_elementCode hcast
  obtain ⟨x, hx, rfl⟩ := hunbox'.intValue (congrArg Point.stack cast)
  refine ⟨k, array, items, place, x, rfl, hbacking, hplace, hx, ?_⟩
  rw [cast]

/-- The value is a number; it is combined with the element and stored. -/
lemma ran_store {op : IntOp} {v v' : Value} {x k : Int32} {stack : List Value}
    (h : s.Ran [.callVirtual .intValue, .arith op, .callStatic .integerValueOf,
      .callVirtual .listSet] b q)
    (hstack : b.stack = v' :: .raw x :: .raw k :: v :: stack) :
    ∃ y z array items place, v' = .integer y ∧ op.apply x y = .ok z ∧
      b.world.heap.backing v = .ok (array, items) ∧ position items k = .ok place ∧
      q = ⟨q.pc, stack, b.locals, { b.world with
        heap := b.world.heap.set array (.array (items.setIfInBounds place (.integer z))) }⟩ := by
  simp only [ran_cons, ran_nil] at h
  obtain ⟨b₁, hunbox, b₂, harith, b₃, hbox, b₄, hset, rfl⟩ := h
  obtain ⟨y, rfl, rfl⟩ := hunbox.intValue hstack
  obtain ⟨z, hz, rfl⟩ := harith.arith rfl
  obtain rfl := hbox.boxInt rfl
  obtain ⟨array, items, place, hbacking, hplace, rfl⟩ := hset.listSet rfl
  exact ⟨y, z, array, items, place, rfl, hz, hbacking, hplace, rfl⟩

end Lowering

/-! ## The statement -/

/-- **An element of the list at `l` becomes `x op y`**: `x` is the element at `k'` that the list has
in `read`, and the element at `k` is replaced that it has in `before`.  The other elements, and
those of lists around other arrays, are left as they are. -/
inductive Heap.Combines (l : Nat) (op : IntOp) (k k' y : Int32) (read before after : Heap) : Prop
  | mk {b : Nat} {items items' items'' : Array Value} {x z : Int32} :
      read.Lists l b items → 0 ≤ k'.toInt → items[k'.toInt.toNat]? = some (.integer x) →
      op.apply x y = .ok z →
      before.Lists l b items' → after.Lists l b items'' → items''.size = items'.size →
      0 ≤ k.toInt → items''[k.toInt.toNat]? = some (.integer z) →
      (∀ place, place ≠ k.toInt.toNat → items''[place]? = items'[place]?) →
      (∀ l' b' others, b' ≠ b → before.Lists l' b' others → after.Lists l' b' others) →
      Combines l op k k' y read before after

namespace Heap

/-- Reading an element and storing its combination with a number. -/
lemma combines_of_backing {h h' h'' : Heap} {v : Value} {array array' place place' : Nat}
    {items items' : Array Value} {op : IntOp} {x y z k k' : Int32}
    (hread : h.backing v = .ok (array, items)) (hplace : position items k' = .ok place)
    (hx : items[place]?.getD .null = .integer x) (hz : op.apply x y = .ok z) (hkept : Kept ∅ h h')
    (hstore : h'.backing v = .ok (array', items')) (hplace' : position items' k = .ok place')
    (hset : h'' = h'.set array' (.array (items'.setIfInBounds place' (.integer z)))) :
    ∃ l, v = .ref l ∧ Combines l op k k' y h h' h'' := by
  obtain ⟨l, rfl, hlists⟩ := backing_ok hread
  obtain ⟨l', hl', hlists'⟩ := backing_ok hstore
  obtain rfl : l = l' := by simpa using hl'
  -- a list stays around the array it was made around
  obtain ⟨_, kept, -⟩ := Lists.of_kept hlists hkept
  obtain rfl : array = array' := by simpa using kept.1.symm.trans hlists'.1
  obtain ⟨rfl, hnonneg, -⟩ := position_ok hplace
  obtain ⟨rfl, hnonneg', hlt⟩ := position_ok hplace'
  have element : items[k'.toInt.toNat]? = some (.integer x) := by
    cases hitem : items[k'.toInt.toNat]? with
    | none =>
        rw [hitem] at hx
        cases hx
    | some item =>
        rw [hitem] at hx
        exact congrArg some hx
  have objects := get?_set hlists'.2 (.array (items'.setIfInBounds k.toInt.toNat (.integer z)))
  have apart : l ≠ array := by
    rintro rfl
    simpa using hlists'.1.symm.trans hlists'.2
  have stored : h''.Lists l array (items'.setIfInBounds k.toInt.toNat (.integer z)) := by
    rw [hset]
    exact ⟨by rw [objects, if_neg apart, hlists'.1], by rw [objects, if_pos rfl]⟩
  refine ⟨l, rfl, .mk hlists hnonneg element hz hlists' stored Array.size_setIfInBounds
    hnonneg' ?_ ?_ ?_⟩
  · rw [Array.getElem?_setIfInBounds, if_pos rfl, if_pos (by omega)]
  · intro other hother
    rw [Array.getElem?_setIfInBounds, if_neg (Ne.symm hother)]
  · rintro l' b' others hother ⟨hlist, hitems⟩
    have distinct : l' ≠ array := by
      rintro rfl
      simpa using hlist.symm.trans hlists'.2
    rw [hset]
    exact ⟨by rw [objects, if_neg distinct, hlist], by rw [objects, if_neg hother, hitems]⟩

/-- Items of which the one at a place, a number, is combined with a number. -/
def combinedAt (op : IntOp) (y : Int32) (items : Array Value) (place : Nat) :
    Option (Array Value) :=
  match items[place]? with
  | some (.integer x) => (op.apply x y).toOption.map fun z => items.setIfInBounds place (.integer z)
  | _ => none

/-- What becomes of the items of a list, one of which is read and replaced. -/
lemma Combines.exists_combinedAt {h h' : Heap} {l b : Nat} {op : IntOp} {k y : Int32}
    {items items' : Array Value} (hcombines : Combines l op k k y h h h')
    (hlists : h.Lists l b items) (hlists' : h'.Lists l b items') :
    ∃ place, combinedAt op y items place = some items' := by
  cases hcombines with
  | @mk b₁ read before after x z hread _ hx hz hbefore hafter hsize _ hnew hrest _ =>
      obtain rfl : b = b₁ := by simpa using hlists.1.symm.trans hread.1
      obtain rfl : items = read := by simpa using hlists.2.symm.trans hread.2
      obtain rfl : items = before := by simpa using hlists.2.symm.trans hbefore.2
      obtain rfl : items' = after := by simpa using hlists'.2.symm.trans hafter.2
      obtain ⟨inside, -⟩ := Array.getElem?_eq_some_iff.1 hx
      refine ⟨k.toInt.toNat, ?_⟩
      simp only [combinedAt, hx, hz, Except.toOption, Option.map_some, Option.some.injEq]
      refine Array.ext_getElem? fun place => ?_
      rw [Array.getElem?_setIfInBounds]
      by_cases hplace : k.toInt.toNat = place
      · subst hplace
        rw [if_pos rfl, if_pos inside, hnew]
      · rw [if_neg hplace, hrest place (Ne.symm hplace)]

/-- If there were only new objects when the element was read, and lists have been left alone until
it was replaced, it is the one that was there at the start. -/
lemma Combines.of_within {h₀ h h' h'' : Heap} {l : Nat} {op : IntOp} {k y : Int32}
    (hcombines : Combines l op k k y h h' h'') (hgrounded : h₀.Guards ∅) (hl : h₀.Sees ∅ (.ref l))
    (hwithin : h₀.Within h) (hretains : h.Retains h') : Combines l op k k y h₀ h₀ h'' := by
  cases hcombines with
  | @mk b items before _ _ _ hread hnonneg hx hz hbefore hafter hsize hnonneg' hnew hrest hothers =>
      have same : before = items := by simpa using hbefore.2.symm.trans (hretains _ _ _ hread).2
      rw [same] at hsize hrest
      obtain ⟨obj, hobj⟩ : ∃ obj, h₀.get? l = some obj :=
        ⟨_, Array.getElem?_eq_getElem (hl l rfl).1⟩
      obtain rfl : obj = .list (.ref b) := by simpa using (hwithin l obj hobj).symm.trans hread.1
      -- the array was there too, since the list refers to it
      have hb := hgrounded l _ hobj (by simp) (.ref b) (by simp [Obj.values])
      obtain ⟨array, harray⟩ : ∃ obj, h₀.get? b = some obj :=
        ⟨_, Array.getElem?_eq_getElem (hb b rfl).1⟩
      obtain rfl : array = .array items := by
        simpa using (hwithin b array harray).symm.trans hread.2
      have start : h₀.Lists l b items := ⟨hobj, harray⟩
      refine .mk start hnonneg hx hz start hafter hsize hnonneg' hnew hrest ?_
      intro l' b' others hne hlists
      exact hothers l' b' others hne (hretains _ _ _ ⟨hwithin _ _ hlists.1, hwithin _ _ hlists.2⟩)

end Heap

/-- **A compound assignment to an element** of the list at `l`: the index is evaluated, to `k`, and
once more, to `k'`; the value is evaluated, to `y`; then an element becomes a combination with `y`.
In between the run stays in its frame. -/
inductive Site.Updates (s : Site) (env : Env) (scope : ScopeId) (depth : Nat) (index : Expr)
    (op : BinaryOp) (value : Expr) (l : Nat) (k k' y : Int32) (p q : Point) : Prop
  | mk {a₁ b₁ a₂ b₂ a₃ b₃ : Point} :
      s.Connects p a₁ → s.Evaluates env scope depth index a₁ (.integer k) b₁ →
      s.Connects b₁ a₂ → s.Evaluates env scope depth index a₂ (.integer k') b₂ →
      s.Connects b₂ a₃ → s.Evaluates env scope depth value a₃ (.integer y) b₃ →
      (∃ n, Runs s.classFile (s.Along b₃.pc q.pc) (s.machine b₃) n (s.machine q)) →
      q.locals = b₃.locals →
      Combines l op.intOp k k' y b₂.world.heap b₃.world.heap q.world.heap →
      (index.calls = [] → p.world.heap.Retains b₂.world.heap) →
      (value.calls = [] → b₂.world.heap.Retains b₃.world.heap) →
      Updates s env scope depth index op value l k k' y p q

namespace Lowering

open Site

/-- The parts of the code of a compound assignment to an element of the list in a slot. -/
inductive CombineCode (env : Env) (scope : ScopeId) (depth : Nat) (slots : Slots) (slot : Nat)
    (index : Expr) (op : BinaryOp) (value : Expr) : List Instruction → Prop
  | mk {t₁ u₁ t₂ u₂ t₃ u₃ : Supply} {ty element : Ty} {first again operand : List Instruction} :
      ValueCode env scope depth t₁ index first u₁ → u₁.slots.Within slots →
      ValueCode env scope depth t₂ index again u₂ → u₂.slots.Within slots →
      ValueCode env scope depth t₃ value operand u₃ → u₃.slots.Within slots →
      CombineCode env scope depth slots slot index op value
        ([.load slot, .cast ClassName.list] ++ first ++
          .callVirtual .intValue :: .load slot :: downcast ty ++ again ++
          .callVirtual .intValue :: .callVirtual .listGet ::
            (elementCode element ++ [.callVirtual .intValue]) ++ operand ++
          [.callVirtual .intValue, .arith op.intOp, .callStatic .integerValueOf,
            .callVirtual .listSet])

variable {env : Env} {scope : ScopeId} {depth : Nat} {t u : Supply} {code : List Instruction}

lemma ExprCode.of_arith {note : Note} {op : BinaryOp} {lhs rhs : Expr}
    (h : ExprCode env scope depth t (.binary note op lhs rhs) code u) (hop : op.cond? = none) :
    ∃ v first second, ValueCode env scope depth t lhs first v ∧
      ValueCode env scope depth v rhs second u ∧
      code = first ++ [.callVirtual .intValue] ++ second ++
        [.callVirtual .intValue, .arith op.intOp, .callStatic .integerValueOf] := by
  cases h with
  | leaf hleaf => cases hleaf
  | unary _ _ hlast => cases hlast
  | binary hv hlhs hv' hrhs hlast =>
      cases hlast with
      | arith _ _ _ => exact ⟨_, _, _, ⟨hv, hlhs⟩, ⟨hv', hrhs⟩, rfl⟩
      | scalar hcond _ | text hcond _ | identity hcond _ => simp [hop] at hcond

lemma ExprCode.of_index {note : Note} {base place : Expr}
    (h : ExprCode env scope depth t (.index note base [place]) code u) :
    ∃ v first second element, ValueCode env scope depth t base first v ∧
      ValueCode env scope depth v place second u ∧
      code = first ++ second ++ .callVirtual .intValue :: .callVirtual .listGet ::
        elementCode element := by
  cases h with
  | leaf hleaf => cases hleaf
  | unary _ _ hlast => cases hlast
  | binary hv hlhs hv' hrhs hlast =>
      cases hlast with
      | @index _ _ _ element _ _ =>
          exact ⟨_, _, _, element, ⟨hv, hlhs⟩, ⟨hv', hrhs⟩, by rw [List.append_nil]⟩

lemma ExprCode.of_variable {note : Note} {name : String}
    (h : ExprCode env scope depth t (.ident note name) code u)
    (hname : env.symbols.functionBinding? scope name = none) :
    u = t.withSlot (.var name) ∧ ∃ ty, code = .load (t.slotOf (.var name)) :: downcast ty := by
  cases h with
  | leaf hleaf =>
      cases hleaf with
      | fn hl => simp [SymbolTable.functionBinding?, hl, Binding.fn?] at hname
      | var _ _ => exact ⟨rfl, _, rfl⟩
  | unary _ _ hlast => cases hlast
  | binary _ _ _ _ hlast => cases hlast

/-- **The code of a compound assignment to an element.** -/
lemma PlainCode.combineCode {loop : Option LoopLabels} {slots : Slots} {span : Span}
    {target index value : Expr} {op : AssignOp} {op' : BinaryOp} {name : String}
    (h : PlainCode env depth loop scope t (.assign span target (some index) op value) code u)
    (hname : target.ident? = some name) (hvariable : env.symbols.functionBinding? scope name = none)
    (hop : op.binary? = some op') (hwithin : u.slots.Within slots) :
    ∃ slot, slots.get? (.var name) = some slot ∧
      CombineCode env scope depth slots slot index op' value code := by
  obtain ⟨note, rfl⟩ := Expr.ident?_eq_some.1 hname
  cases h with
  | @assignElement v _ _ _ _ _ _ name' element first second _ hname' _ _ hindex hvalue =>
      obtain rfl : name = name' := Option.some.inj (hname.symm.trans hname')
      rw [assignedValue, hop] at hvalue
      have arithmetic : op'.cond? = none := by
        cases op <;> simp only [AssignOp.binary?, reduceCtorEq, Option.some.injEq] at hop <;>
          subst hop <;> rfl
      obtain ⟨w, reading, operand, ⟨hv, hreading⟩, hoperand, rfl⟩ := hvalue.2.of_arith arithmetic
      obtain ⟨v', fetch, again, element, ⟨hv', hfetch⟩, hagain, rfl⟩ := hreading.of_index
      obtain ⟨rfl, ty, rfl⟩ := hfetch.of_variable hvariable
      have within₂ := hoperand.2.within.slots.trans hwithin
      have within₁ := hagain.2.within.slots.trans within₂
      have within := (Supply.within_withSlot _ _).slots.trans within₁
      have slot := Supply.get?_slotOf (hindex.2.within.slots.trans within)
      -- both fetches are from the one slot that the variable has
      have fetched : v.slotOf (.var name) = t.slotOf (.var name) :=
        Option.some.inj ((Supply.get?_slotOf within₁).symm.trans slot)
      refine ⟨_, slot, ?_⟩
      rw [fetched]
      have parts := @CombineCode.mk env scope depth slots (t.slotOf (.var name)) index op'
        value _ _ _ _
        _ _ ty element _ _ _ hindex within hagain within₂ hoperand hwithin
      simpa using parts

section Passing

variable {s : Site} {slots : Slots} {names : List String} {n pc d : Nat} {same : Set Nat}
  {p₀ b p q : Point} {base : List Value}

/-- The slots of the variables that are not among some names. -/
def Uncounted (slots : Slots) (names : List String) : Set Nat :=
  { slot | ∃ x, x ∉ names ∧ slots.get? (.var x) = some slot }

lemma uncounted_subset {names' : List String} (hnames : names' ⊆ names) (literals : Nat) :
    Uncounted slots names ⊆ Spared slots depth literals names' := by
  rintro slot ⟨x, hx, hslot⟩
  exact .inr ⟨x, fun hmem => hx (hnames hmem), hslot⟩

/-- **A sequence and an evaluation after it** have been carried out. -/
inductive Stage (s : Site) (env : Env) (scope : ScopeId) (depth : Nat) (slots : Slots)
    (same : Set Nat) (e : Expr) (before : List Instruction) (b : Point) (v : Value) (b' : Point) :
    Prop
  | mk {a : Point} : s.Ran before b a →
      (∃ k, Runs s.classFile (s.Along b.pc a.pc) (s.machine b) k (s.machine a)) →
      s.Evaluates env scope depth e a v b' → a.Later ∅ ∅ same b' →
      (e.calls = [] → a.world.heap.Retains b'.world.heap) →
      (e.calls = [] → e.counted = [] → Sighted env scope slots e a v b') →
      Stage s env scope depth slots same e before b v b'

lemma passing_stage {height : Nat} {before : List Instruction} {e : Expr}
    (hbefore : Straight slots names d before height) (hcode : ValueCode env scope depth t e code u)
    (hcalls : ∀ k, s.classFile.SparesHidden k) (hwithin : u.slots.Within slots)
    (harrives : p₀.Arrives ∅ ∅ same pc base d b) (hhas : s.Has pc before)
    (hhas' : s.Has (pc + before.length) code)
    (hnames : ∀ literals, same ⊆ Spared slots depth literals names)
    (hcounted : ∀ literals, same ⊆ Spared slots depth literals e.counted) :
    s.Passing pc (pc + before.length + code.length) n b fun b' =>
      p₀.Arrives ∅ ∅ same (pc + before.length + code.length) base (height + 1) b' ∧
      ∃ v, Stage s env scope depth slots same e before b v b' := by
  refine (hbefore.along harrives hhas (hnames 0)).bind (Nat.le_refl _) (by omega) ?_
  rintro a i - ⟨ha, hran, along⟩ -
  rw [← ha.place] at hhas' ⊢
  refine (hcode.evaluates hcalls hwithin hhas' ha.later.clear (hcounted _)).bind
    (by rw [ha.place]; omega) (Nat.le_refl _) ?_
  rintro b' j - ⟨hb', v, heval, hretains, hsighted⟩ -
  exact .here ⟨ha.extend hb', v, .mk hran along heval hb'.later hretains hsighted⟩

/-- **What the parts of the statement come to.** -/
lemma updates_of_stages {slot : Nat} {ty element : Ty} {index value : Expr} {op : BinaryOp}
    {b₁ b₂ b₃ : Point} {v₁ v₂ v₃ : Value} (hclear : p.Clear ∅ ∅) (hslot : slot ∈ same)
    (h₁ : Stage s env scope depth slots same index [.load slot, .cast ClassName.list] p v₁ b₁)
    (h₂ : Stage s env scope depth slots same index
      (.callVirtual .intValue :: .load slot :: downcast ty) b₁ v₂ b₂)
    (h₃ : Stage s env scope depth slots same value
      (.callVirtual .intValue :: .callVirtual .listGet ::
        (elementCode element ++ [.callVirtual .intValue])) b₂ v₃ b₃)
    (hstore : s.Ran [.callVirtual .intValue, .arith op.intOp, .callStatic .integerValueOf,
      .callVirtual .listSet] b₃ q)
    (halong : ∃ k, Runs s.classFile (s.Along b₃.pc q.pc) (s.machine b₃) k (s.machine q)) :
    ∃ l k k' y, p.locals[slot]?.getD .null = .ref l ∧
      s.Updates env scope depth index op value l k k' y p q ∧
      (index.calls = [] → index.counted = [] → k' = k ∧ (value.calls = [] →
        Combines l op.intOp k k y p.world.heap p.world.heap q.world.heap)) := by
  cases h₁ with
  | @mk a₁ hran₁ along₁ heval₁ hlater₁ hretains₁ hsighted₁ =>
  cases h₂ with
  | @mk a₂ hran₂ along₂ heval₂ hlater₂ hretains₂ hsighted₂ =>
  cases h₃ with
  | @mk a₃ hran₃ along₃ heval₃ hlater₃ hretains₃ _ =>
  have fetched := ran_fetch hran₁
  have stack₁ : b₁.stack = v₁ :: p.locals[slot]?.getD .null :: p.stack := by
    rw [heval₁.stack, fetched]
  obtain ⟨k, rfl, refetched⟩ := ran_refetch hran₂ stack₁
  -- neither evaluation of the index has touched the variable
  have unchanged : b₁.locals[slot]?.getD .null = p.locals[slot]?.getD .null := by
    rw [hlater₁.same slot hslot, fetched]
  have stack₂ : b₂.stack = v₂ :: p.locals[slot]?.getD .null :: .raw k ::
      p.locals[slot]?.getD .null :: p.stack := by
    rw [heval₂.stack, refetched, unchanged]
  obtain ⟨k', array, items, place, x, rfl, hbacking, hplace, hx, got⟩ := ran_element hran₃ stack₂
  have stack₃ : b₃.stack = v₃ :: .raw x :: .raw k :: p.locals[slot]?.getD .null :: p.stack := by
    rw [heval₃.stack, got]
  obtain ⟨y, z, array', items', place', rfl, hz, hbacking', hplace', stored⟩ :=
    ran_store hstore stack₃
  have kept : Kept ∅ b₂.world.heap b₃.world.heap := by
    have kept := hlater₃.kept
    rw [got] at kept
    exact kept
  have heap : q.world.heap = b₃.world.heap.set array' (.array
      (items'.setIfInBounds place' (.integer z))) := by rw [stored]
  obtain ⟨l, hl, hcombines⟩ := combines_of_backing hbacking hplace hx hz kept hbacking' hplace' heap
  have connects₁ : s.Connects p a₁ := ⟨along₁, by rw [fetched], by rw [fetched]⟩
  have connects₂ : s.Connects b₁ a₂ := ⟨along₂, by rw [refetched], by rw [refetched]⟩
  have connects₃ : s.Connects b₂ a₃ := ⟨along₃, by rw [got], by rw [got]⟩
  refine ⟨l, k, k', y, hl, .mk connects₁ heval₁ connects₂ heval₂ connects₃ heval₃ halong
    (by rw [stored]) hcombines ?_ ?_, ?_⟩
  · intro hnone
    have retains := hretains₁ hnone
    have retains' := hretains₂ hnone
    rw [connects₁.world] at retains
    rw [connects₂.world] at retains'
    exact fun l b items hlists => retains' l b items (retains l b items hlists)
  · intro hnone
    have retains := hretains₃ hnone
    rw [connects₃.world] at retains
    exact retains
  · intro hnone hcounted
    have sight₁ := hsighted₁ hnone hcounted
    have sight₂ := hsighted₂ hnone hcounted
    have reach₁ : p.Extends slots 0 a₁ := connects₁.extends
    have reach₂ : p.Extends slots 0 a₂ :=
      (reach₁.trans (sight₁ p hclear reach₁).1).trans connects₂.extends
    obtain rfl := sight₁.same sight₂ hclear reach₁ reach₂
    refine ⟨rfl, fun hnone' => ?_⟩
    have within := (reach₂.trans (sight₂ p hclear reach₂).1).heap
    have retains := hretains₃ hnone'
    rw [connects₃.world] at retains
    exact hcombines.of_within hclear.sealed.grounded (hl ▸ hclear.held slot) within retains

/-- **A run that comes through the code has updated an element.** -/
theorem CombineCode.passing {slot : Nat} {index value : Expr} {op : BinaryOp} {name : String}
    (h : CombineCode env scope depth slots slot index op value code)
    (hcalls : ∀ k, s.classFile.SparesHidden k) (hvar : slots.get? (.var name) = some slot)
    (hslot : slot ∈ same) (hindex : ∀ literals, same ⊆ Spared slots depth literals index.counted)
    (hvalue : ∀ literals, same ⊆ Spared slots depth literals value.counted)
    (hhas : s.Has p.pc code) (hclear : p.Clear ∅ ∅) :
    s.Passing p.pc (p.pc + code.length) n p fun q =>
      p.Arrives ∅ ∅ same (p.pc + code.length) p.stack 0 q ∧
      ∃ l k k' y, p.locals[slot]?.getD .null = .ref l ∧
        s.Updates env scope depth index op value l k k' y p q ∧
        (index.calls = [] → index.counted = [] → k' = k ∧ (value.calls = [] →
          Combines l op.intOp k k y p.world.heap p.world.heap q.world.heap)) := by
  cases h with
  | @mk t₁ u₁ t₂ u₂ t₃ u₃ ty element first again operand hfirst hwithin₁ hagain hwithin₂ hoperand
      hwithin₃ =>
      have fetch : Straight slots index.counted 0 [.load slot, .cast ClassName.list] 1 :=
        (straight_load hvar 0).append (straight_of_quiet rfl rfl (by simp) (by simp))
      have refetch : Straight slots index.counted 2
          (.callVirtual .intValue :: .load slot :: downcast ty) 3 :=
        (straight_unbox .int 1).append ((straight_load hvar 2).append (straight_cast ty 2))
      have read : Straight slots index.counted 4 (.callVirtual .intValue :: .callVirtual .listGet ::
          (elementCode element ++ [.callVirtual .intValue])) 3 :=
        (straight_index element 2).append (straight_unbox .int 2)
      have store : Straight slots index.counted 4 [.callVirtual .intValue, .arith op.intOp,
          .callStatic .integerValueOf, .callVirtual .listSet] 0 :=
        straight_of_quiet rfl rfl (by simp [Instruction.callVirtual, Instruction.callStatic])
          (by simp [Instruction.callVirtual, Instruction.callStatic])
      simp only [has_append, List.length_append, ← Nat.add_assoc] at hhas ⊢
      obtain ⟨⟨⟨⟨⟨⟨hhas₁, hhas₂⟩, hhas₃⟩, hhas₄⟩, hhas₅⟩, hhas₆⟩, hhas₇⟩ := hhas
      -- the place to store to, the place to read and the value, and then the store
      refine (passing_stage fetch hfirst hcalls hwithin₁ (hclear.arrives same) hhas₁ hhas₂ hindex
        hindex).bind (Nat.le_refl _) (by omega) ?_
      rintro b₁ i₁ - ⟨hb₁, v₁, stage₁⟩ -
      refine (passing_stage refetch hagain hcalls hwithin₂ hb₁ hhas₃ hhas₄ hindex hindex).bind
        (by omega) (by omega) ?_
      rintro b₂ i₂ - ⟨hb₂, v₂, stage₂⟩ -
      refine (passing_stage read hoperand hcalls hwithin₃ hb₂ hhas₅ hhas₆ hindex hvalue).bind
        (by omega) (by omega) ?_
      rintro b₃ i₃ - ⟨hb₃, v₃, stage₃⟩ -
      refine (store.along hb₃ hhas₇ (hindex 0)).bind (by omega) (by omega) ?_
      rintro q i₄ - ⟨hq, hran, along⟩ -
      exact .here ⟨hq, updates_of_stages hclear hslot stage₁ stage₂ stage₃ hran along⟩

end Passing

end Lowering

/-! ## Programs -/

section Bump

open Build

/-- `xs[++i] += 5`. -/
def bumpStmt : Stmt :=
  assignIndex (ident "xs" (.list .int)) (unary .inc (ident "i" .int)) .add (int 5)

/-- A function that adds to an element of a list, at a place that it counts up to. -/
def bumpProgram : CheckedProgram :=
  ({} : ProgramDraft).function "bump" [⟨"xs", .list .int⟩, ⟨"i", .int⟩] .int
      [bumpStmt, ret (some (ident "i" .int))]
    |>.finish []

/-- A world with one list. -/
def bumpWorld : World :=
  { heap := { objects := #[.array #[.integer 10, .integer 20, .integer 30], .list (.ref 0)] } }

/-- A function that adds to the first element of a list while another function, which has the list
as an element of its own list, changes the second. -/
def stirProgram : CheckedProgram :=
  let xs := ident "xs" (.list .int)
  let ys := ident "ys" (.list .int)
  ({} : ProgramDraft).function "touch" [⟨"yss", .list (.list .int)⟩] .int
      [assign ys .assign (index (ident "yss" (.list (.list .int))) (int 0)),
        assignIndex ys (int 1) .assign (int 7), ret (some (int 0))]
    |>.function "stir" [⟨"xss", .list (.list .int)⟩, ⟨"xs", .list .int⟩] .int
      [assignIndex xs (call "touch" [ident "xss" (.list (.list .int))] .int) .add (int 10),
        ret (some (int 0))]
    |>.finish []

/-- A world with a list, and a list of that list. -/
def stirWorld : World :=
  { heap := { objects := #[.array #[.integer 1, .integer 2], .list (.ref 0), .array #[.ref 1],
      .list (.ref 2)] } }

/-- A class with methods that are called like those of lists, and a function that adds to an
element. -/
def shadowProgram : CheckedProgram :=
  ({} : ProgramDraft).function "getElement" [⟨"k", .int⟩] .int [ret (some (int 100))]
    |>.function "setElement" [⟨"k", .int⟩, ⟨"v", .int⟩] .void []
    |>.function "bump" [⟨"xs", .list .int⟩, ⟨"i", .int⟩] .int
      [assignIndex (ident "xs" (.list .int)) (ident "i" .int) .add (int 5),
        ret (some (ident "i" .int))]
    |>.finish []

/-- What a request for a function of a program returns, and what becomes of a list. -/
lemma exists_answer (program : CheckedProgram) (config : Config) (world : World) (request : Request)
    (returned : Value) (l b : Nat) (items : Array Value)
    (made : ((assemble program config).toOption.map fun r =>
        let answer := ({ classFile := r.1, world } : Session).answer request
        (answer.1.toOption.bind (·.returned), answer.2.world.heap.get? l,
          answer.2.world.heap.get? b))
      = some (some returned, some (.list (.ref b)), some (.array items))) :
    ∃ c issued result after, assemble program config = .ok (c, issued) ∧
      ({ classFile := c, world } : Session).answer request = (result, after) ∧
      result.toOption.bind (·.returned) = some returned ∧ after.world.heap.Lists l b items := by
  cases h : assemble program config with
  | error e => simp [h, Except.toOption] at made
  | ok r =>
      rw [h] at made
      obtain ⟨hreturned, hlist, hitems⟩ : _ ∧ _ ∧ _ := by simpa [Except.toOption] using made
      exact ⟨r.1, r.2, _, _, rfl, rfl, hreturned, hlist, hitems⟩

variable {c : ClassFile} {issued : Nat}

lemma guards_bumpWorld : bumpWorld.heap.Guards ∅ := by
  intro a obj hobj _ v hv
  rcases a with _ | _ | a
  · obtain rfl : obj = .array #[.integer 10, .integer 20, .integer 30] :=
      (Option.some.inj hobj).symm
    have scalar : ∃ x, v = .integer x := by
      simp only [Obj.values, List.mem_cons, List.not_mem_nil, or_false] at hv
      rcases hv with rfl | rfl | rfl <;> exact ⟨_, rfl⟩
    obtain ⟨x, rfl⟩ := scalar
    simp [Sees]
  · obtain rfl : obj = .list (.ref 0) := (Option.some.inj hobj).symm
    obtain rfl : v = .ref 0 := by simpa [Obj.values] using hv
    simp [Sees, bumpWorld]
  · simp [bumpWorld, get?] at hobj

lemma Lowering.BlockCode.exists_first {env : Env} {depth : Nat} {loop : Option LoopLabels}
    {scope : ScopeId} {t u : Supply} {stmt : Stmt} {rest : List Stmt} {code : List Instruction}
    (h : BlockCode env depth loop scope t (stmt :: rest) code u) :
    ∃ own codes v, StmtCode env depth loop scope t stmt own v ∧
      BlockCode env depth loop scope v rest codes u ∧ code = own ++ codes := by
  cases h with
  | cons hstmt hrest => exact ⟨_, _, _, hstmt, hrest, rfl⟩

/-- The code of the first statement of the function. -/
lemma exists_code_bump (h : assemble bumpProgram {} = .ok (c, issued)) :
    ∃ method env scope start code u last, c.resolve "bump" = .ok method ∧ method.isStatic = false ∧
      env.symbols.functionBinding? scope "xs" = none ∧ start.callDepth = 0 ∧
      (lowerStmt env scope bumpStmt).Does start () (start.grown code u) ∧
      method.code.toList = code ++ last ∧ last ≠ [] := by
  obtain ⟨_, _, _, before, _, method, -, -, hfunction, hfound⟩ :=
    method?_function h (show "bump" ∈ bumpProgram.reachable by decide) (by decide)
  have hresolve := Frame.resolve_of_method? hfound
  have bound : ((bumpProgram.symbols.functionBinding? .global "bump").map fun binding =>
      (bumpProgram.symbols.functionBinding? binding.scope "xs").isNone) = some true := by
    decide +kernel
  cases hfunction with
  | @mk binding decl slots _ _ hbinding hdecl _ _ hbody =>
      obtain rfl : _ = decl := Option.some.inj (Eq.trans (by rfl) hdecl)
      rw [hbinding, Option.map_some, Option.some.injEq, Option.isNone_iff_eq_none] at bound
      cases hbody with
      | @mk code u hblock =>
          obtain ⟨last, -, hclosed⟩ := Typing.toList_closeBody binding.returnType code
          obtain ⟨own, codes, v, hown, hrest, rfl⟩ := hblock.exists_first
          obtain ⟨value, -, rfl⟩ := hrest.exists_value
          cases hown with
          | plain hplain =>
              let start : State := { labels := before.labels, slots }
              have does : (lowerStmt _ binding.scope bumpStmt).Does start () (start.grown own v) :=
                (does_plain rfl).2 ⟨own, v, hplain, rfl⟩
              exact ⟨_, _, binding.scope, start, own, v, value ++ .retValue :: last, hresolve, rfl,
                bound, rfl, does, hclosed.trans (by simp), by simp⟩

/-- The function starts with the statement, and does not end inside it. -/
lemma exists_site_bump (h : assemble bumpProgram {} = .ok (c, issued)) {first : Machine}
    (hfirst : ({ classFile := c, world := bumpWorld } : Session).opening
      (.invoke .null "bump" [.ref 1, .integer 0]) = .ok first) :
    ∃ (s : Site) (env : Env) (scope : ScopeId) (start : State) (code : List Instruction)
      (u : Supply), s.classFile = c ∧
      s.machine ⟨0, [], #[.null, .ref 1, .integer 0], bumpWorld.enter 1⟩ = first ∧
      env.symbols.functionBinding? scope "xs" = none ∧ start.callDepth = 0 ∧
      (lowerStmt env scope bumpStmt).Does start () (start.grown code u) ∧ s.Has 0 code ∧
      ∀ m k outcome w, Stops c m k (.ok outcome) w → ¬ s.Inside 0 (0 + code.length) m := by
  obtain ⟨method, env, scope, start, code, u, last, hresolve, hstatic, hbound, hdepth, hdoes, hlist,
    hlast⟩ := exists_code_bump h
  obtain ⟨frame, hframe, rfl⟩ := Session.opening_eq_ok.1 hfirst
  obtain ⟨method', hresolve', hcall⟩ := bind_ok hframe
  obtain rfl : method = method' := Except.ok.inj (hresolve.symm.trans hresolve')
  have hapart : ∀ m : LibraryMethod, m.ref.owner ≠ c.name := name_of_assemble h ▸ apart_Main
  obtain ⟨s, rfl, hsite, -, -, hmachine⟩ := Typing.exists_site hapart hcall []
  simp only [Method.entryLocals, hstatic, Bool.false_eq_true, if_false,
    Option.getD_some] at hmachine
  have listed : s.code.toList = [] ++ (code ++ last) := by rw [hsite, hlist, List.nil_append]
  have hhas : s.Has 0 code := (Site.has_append.1 (Typing.has_of_toList listed)).1
  have made : ((assemble bumpProgram {}).toOption.bind fun r => (r.1.resolve "bump").toOption.map
      fun method => method.code.toList.dropLast.all Instruction.staysPut) = some true := by
    decide +kernel
  have stays : ∀ i ∈ method.code.toList.dropLast, i.staysPut = true := by
    simpa [h, hresolve, Except.toOption] using made
  refine ⟨s, env, scope, start, code, u, rfl, (hmachine _).symm, hbound, hdepth, hdoes, hhas,
    fun m k outcome w hstops => Site.not_inside_of_stays hhas
      (fun i hi => .inl (stays i ?_)) hstops⟩
  rw [hlist, List.dropLast_append_of_ne_nil hlast]
  exact List.mem_append_left _ hi

end Bump

/-! ## The statement as a whole -/

/-- **A compound assignment to an element evaluates its index twice**, before its value, and
combines the element at the second place with the value into the element at the first place.
Whenever a run of a class, of whatever it is asked for and from any heap in which references lead to
objects, gets to the code that is lowered for `xs[i] op= v`, where `xs` is a variable that neither
`i` nor `v` counts up or down, all that follows is in that code or in methods called from it, until
the run has come through it: then `xs` is still the same list, one of its elements has been
replaced, and no variable has changed but those that `i` or `v` count.  If `i` calls nothing and
counts nothing, its two values are the same; if moreover `v` calls nothing, one element has been
read, modified and written back, and all others are as they were before the statement. -/
theorem combines_element {program : CheckedProgram} {config : Config} {c : ClassFile} {issued : Nat}
    (h : assemble program config = .ok (c, issued))
    (hapart : ∀ m : LibraryMethod, m.ref.owner ≠ config.className) (session : Session)
    (request : Request) (hclass : session.classFile = c) (hheap : session.world.heap.Guards ∅)
    (hrequest : request.Grounded session.world.heap) (first : Machine)
    (hfirst : session.opening request = .ok first) (n : Nat) (m : Machine)
    (hleads : Leads c first n m) :
    (∃ (s : Site) (p : Point), s.classFile = c ∧ s.machine p = m) ∧
    ∀ (s : Site) (p : Point), s.classFile = c → s.machine p = m →
      ∀ env scope span target name index op op' value start code u slots,
        target.ident? = some name → env.symbols.functionBinding? scope name = none →
        name ∉ index.counted ++ value.counted → op.binary? = some op' →
        (lowerStmt env scope (.assign span target (some index) op value)).Does start ()
          (start.grown code u) →
        u.slots.Within slots → s.Has p.pc code →
        ∃ slot, slots.get? (.var name) = some slot ∧
          ∀ limit, Passes c (s.Inside p.pc (p.pc + code.length)) limit m fun m' =>
            ∃ q l k k' y, m' = s.machine q ∧ q.pc = p.pc + code.length ∧ q.stack = p.stack ∧
              p.locals[slot]?.getD .null = .ref l ∧
              s.Updates env scope start.callDepth index op' value l k k' y p q ∧
              (index.calls = [] → index.counted = [] → k' = k ∧ (value.calls = [] →
                Combines l op'.intOp k k y p.world.heap p.world.heap q.world.heap)) ∧
              ∀ x slot, x ∉ index.counted ++ value.counted → slots.get? (.var x) = some slot →
                q.locals[slot]?.getD .null = p.locals[slot]?.getD .null := by
  rw [← name_of_assemble h] at hapart
  have grounded := (session.grounded_of_opening hheap hrequest hfirst).of_leads hleads
  refine ⟨grounded.exists_site hapart, ?_⟩
  rintro s p rfl rfl env scope span target name index op op' value start code u slots
    hname hvariable
    huncounted hop hdoes hwithin hhas
  obtain ⟨code', u', hplain, hgrown⟩ := (does_plain rfl).1 hdoes
  obtain ⟨rfl, rfl⟩ : code = code' ∧ u = u' := by
    refine ⟨?_, ?_⟩
    · have appended := congrArg (fun s : State => s.code.toList) hgrown
      simpa using appended
    · simpa using congrArg State.supply hgrown
  obtain ⟨slot, hslot, hcombine⟩ := hplain.combineCode hname hvariable hop hwithin
  refine ⟨slot, hslot, fun limit => ?_⟩
  have hmem : slot ∈ Uncounted slots (index.counted ++ value.counted) := ⟨name, huncounted, hslot⟩
  have passed := hcombine.passing (n := limit) (sparesHidden h) hslot hmem
    (uncounted_subset (List.subset_append_left _ _))
    (uncounted_subset (List.subset_append_right _ _))
    hhas grounded.clear
  refine Passes.bind passed (fun _ hm => hm.2) ?_
  rintro _ i - ⟨q, rfl, hq, l, k, k', y, hl, hupdates, hreading⟩ -
  obtain ⟨ops, hstack, hlength, -⟩ := hq.stack
  obtain rfl := List.length_eq_zero_iff.1 hlength
  exact .here ⟨q, l, k, k', y, rfl, hq.place, hstack, hl, hupdates, hreading,
    fun x slot hx hslot => hq.later.same slot ⟨x, hx, hslot⟩⟩

theorem combines_element_bumpProgram :
    ∃ c issued first, assemble bumpProgram {} = .ok (c, issued) ∧
      ({ classFile := c, world := bumpWorld } : Session).opening
        (.invoke .null "bump" [.ref 1, .integer 0]) = .ok first ∧
      ∃ (s : Site) (p q : Point) (env : Env) (scope : ScopeId) (l : Nat) (k k' y : Int32),
        s.classFile = c ∧ s.machine p = first ∧
        s.Updates env scope 0 (Build.unary .inc (Build.ident "i" .int)) .add (Build.int 5)
          l k k' y p
          q := by
  cases h : assemble bumpProgram {} with
  | error e =>
      have made : (assemble bumpProgram {}).toOption.isSome = true := by decide +kernel
      simp [h, Except.toOption] at made
  | ok r =>
      obtain ⟨c, issued⟩ := r
      let session : Session := { classFile := c, world := bumpWorld }
      have made : ((assemble bumpProgram {}).toOption.map fun r =>
          (({ classFile := r.1, world := bumpWorld } : Session).answer
            (.invoke .null "bump" [.ref 1, .integer 0])).1.toOption.isSome) = some true := by
        decide +kernel
      rw [h] at made
      have answered : (session.answer (.invoke .null "bump" [.ref 1, .integer 0])).1.toOption.isSome
          = true := Option.some.inj made
      obtain ⟨first, n, m, k, outcome, w, hfirst, hleads, hstops⟩ := Session.exists_run answered
      obtain ⟨s, env, scope, start, code, u, hs, hstart, hbound, hdepth, hdoes, hhas, houtside⟩ :=
        exists_site_bump h hfirst
      have grounded : (Request.invoke .null "bump" [.ref 1, .integer 0]).Grounded
          bumpWorld.heap := by
        simp [Request.Grounded, Sees, bumpWorld]
      have combined := (combines_element h apart_Main session _ rfl guards_bumpWorld grounded first
        hfirst 0 _ .refl).2 s _ hs hstart env scope _ _ "xs" _ .add .add _ start code u u.slots rfl
        hbound (by decide) rfl hdoes (.refl _) hhas
      obtain ⟨slot, -, hpasses⟩ := combined
      rcases hpasses n n m (Nat.le_refl n) hleads with
        hinside | ⟨_, i, j, ⟨q, l, k, k', y, rfl, -, -, -, hupdates, -, -⟩, -, -, -⟩
      · exact absurd hinside (houtside m _ outcome w hstops)
      · rw [hdepth] at hupdates
        exact ⟨c, issued, first, rfl, hfirst, s, _, q, env, scope, l, k, k', y, hs,
          hstart, hupdates⟩

/-- **A compound assignment need not update one element by its own old value**: the place that is
read can be another than the place that is written, and an index that calls a function can change
another element.  `xs[++i] += 5` counts `i` twice and stores the third element plus five as the
second; with a call as index, the other element changes too.  Nor does it update any element, in a
class that goes by the name of lists and has methods of its own for reading and writing elements. -/
theorem compound_assignment_not_single_update :
    (∃ c issued result after, assemble bumpProgram {} = .ok (c, issued) ∧
      ({ classFile := c, world := bumpWorld } : Session).answer
        (.invoke .null "bump" [.ref 1, .integer 0]) = (result, after) ∧
      result.toOption.bind (·.returned) = some (.integer 2) ∧
      ¬ ∃ k, Combines 1 .add k k 5 bumpWorld.heap bumpWorld.heap after.world.heap) ∧
    (∃ c issued result after, assemble stirProgram {} = .ok (c, issued) ∧
      ({ classFile := c, world := stirWorld } : Session).answer
        (.invoke .null "stir" [.ref 3, .ref 1]) = (result, after) ∧
      result.toOption.bind (·.returned) = some (.integer 0) ∧
      ¬ ∃ k, Combines 1 .add k k 10 stirWorld.heap stirWorld.heap after.world.heap) ∧
    ∃ c issued result after,
      assemble shadowProgram { className := ClassName.list } = .ok (c, issued) ∧
      ({ classFile := c, world := bumpWorld } : Session).answer
        (.invoke .null "bump" [.ref 1, .integer 0]) = (result, after) ∧
      result.toOption.bind (·.returned) = some (.integer 0) ∧
      ¬ ∃ k, Combines 1 .add k k 5 bumpWorld.heap bumpWorld.heap after.world.heap := by
  refine ⟨?_, ?_, ?_⟩
  · obtain ⟨c, issued, result, after, h, hanswer, hreturned, hlists⟩ := exists_answer bumpProgram {}
      bumpWorld (.invoke .null "bump" [.ref 1, .integer 0]) (.integer 2) 1 0
      #[.integer 10, .integer 35, .integer 30] (by decide +kernel)
    refine ⟨c, issued, result, after, h, hanswer, hreturned, ?_⟩
    rintro ⟨k, hcombines⟩
    obtain ⟨place, hset⟩ := hcombines.exists_combinedAt ⟨rfl, rfl⟩ hlists
    rcases place with _ | _ | _ | place
    · exact absurd hset (by decide)
    · exact absurd hset (by decide)
    · exact absurd hset (by decide)
    · simp [combinedAt] at hset
  · obtain ⟨c, issued, result, after, h, hanswer, hreturned, hlists⟩ := exists_answer stirProgram {}
      stirWorld (.invoke .null "stir" [.ref 3, .ref 1]) (.integer 0) 1 0 #[.integer 11, .integer 7]
      (by decide +kernel)
    refine ⟨c, issued, result, after, h, hanswer, hreturned, ?_⟩
    rintro ⟨k, hcombines⟩
    obtain ⟨place, hset⟩ := hcombines.exists_combinedAt ⟨rfl, rfl⟩ hlists
    rcases place with _ | _ | place
    · exact absurd hset (by decide)
    · exact absurd hset (by decide)
    · simp [combinedAt] at hset
  · obtain ⟨c, issued, result, after, h, hanswer, hreturned, hlists⟩ := exists_answer shadowProgram
      { className := ClassName.list } bumpWorld (.invoke .null "bump" [.ref 1, .integer 0])
      (.integer 0) 1 0 #[.integer 10, .integer 20, .integer 30] (by decide +kernel)
    refine ⟨c, issued, result, after, h, hanswer, hreturned, ?_⟩
    rintro ⟨k, hcombines⟩
    obtain ⟨place, hset⟩ := hcombines.exists_combinedAt ⟨rfl, rfl⟩ hlists
    rcases place with _ | _ | _ | place
    · exact absurd hset (by decide)
    · exact absurd hset (by decide)
    · exact absurd hset (by decide)
    · simp [combinedAt] at hset

end StackBackend
