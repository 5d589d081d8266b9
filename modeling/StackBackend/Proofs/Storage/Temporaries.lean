import Mathlib.Data.List.Forall2
import Mathlib.Data.List.Induction
import StackBackend.Proofs.Lowering.Laws
import StackBackend.Proofs.Storage.Expressions

/-!
# Arrays are not overwritten while they are filled

The array of a list literal or of a call waits in a slot while the code of its elements runs.  That
code may fill arrays of its own, so their slots must be others.  Literals are counted and calls know
how deep they are, and both numbers only go up on the way inwards: the code of an expression stores
to variables it counts and to arrays with numbers not below the current ones, and an array that is
being filled has a lower number than any of its kind inside it.

* `Slots.refer` — an allocation after a sequence of references, `Slots.keys_refer` its keys;
* `law_refers` — lowering does nothing else to the allocation;
* `Touched` — the keys whose slots an expression may store to, `ExprCode.stores` that it stores to
  no other;
* `HoldsArray`, `ArrayKept` — the array of a list literal or a call stays in its slot,
  `ExprCode.arraysKept` that every array in an expression does;
* `temporaries_kept` — all of it, for an expression that is lowered in any state.
-/

namespace StackBackend

namespace Expr

mutual

/-- The list literals and calls in an expression, from the outside in. -/
def arrays : Expr → List Expr
  | list note elements => list note elements :: arraysIn elements
  | call note callee args => call note callee args :: (callee.arrays ++ arraysIn args)
  | index _ base indices => base.arrays ++ arraysIn indices
  | binary _ _ lhs rhs => lhs.arrays ++ rhs.arrays
  | unary _ _ operand | len _ operand | chop _ operand => operand.arrays
  | int _ _ | bool _ _ | str _ _ | ident _ _ | fnPtr _ _ => []

/-- The list literals and calls in expressions. -/
def arraysIn : List Expr → List Expr
  | [] => []
  | e :: rest => e.arrays ++ arraysIn rest

end

end Expr

namespace Lowering

open Emit Instruction

/-! ## Sequences of references -/

namespace Slots

/-- The allocation after references to keys, one after another, as long as there are numbers left.
-/
def refer (s : Slots) : List SlotKey → Option Slots
  | [] => some s
  | key :: rest => (s.slot key).bind fun found => found.2.refer rest

lemma refer_append (s : Slots) (keys more : List SlotKey) :
    s.refer (keys ++ more) = (s.refer keys).bind fun s' => s'.refer more := by
  induction keys generalizing s with
  | nil => rfl
  | cons key rest ih =>
      rw [List.cons_append, refer, refer, Option.bind_assoc]
      congr
      funext found
      exact ih found.2

lemma refer_concat {s s' : Slots} {keys : List SlotKey} {key : SlotKey} :
    s.refer (keys ++ [key]) = some s' ↔
      ∃ r, s.refer keys = some r ∧ r.size < slotLimit ∧ (r.enter key).2 = s' := by
  simp only [refer_append, Option.bind_eq_some_iff, refer, Option.some.injEq, Prod.exists,
    slot_eq_some]
  constructor
  · rintro ⟨r, hr, slot, s'', ⟨hsize, henter⟩, rfl⟩
    exact ⟨r, hr, hsize, by rw [henter]⟩
  · rintro ⟨r, hr, hsize, rfl⟩
    exact ⟨r, hr, _, _, ⟨hsize, rfl⟩, rfl⟩

lemma within_refer {s s' : Slots} {keys : List SlotKey} (h : s.refer keys = some s') :
    s.Within s' := by
  induction keys using List.reverseRecOn generalizing s' with
  | nil =>
      obtain rfl := Option.some.inj h
      exact .refl s
  | append_singleton keys key ih =>
      obtain ⟨r, hr, -, rfl⟩ := refer_concat.1 h
      exact (ih hr).trans (r.within_enter key)

/-- **The keys with a slot are those referred to**, in the order of their first references. -/
lemma keys_refer {keys : List SlotKey} {s : Slots} (h : Slots.empty.refer keys = some s) :
    s.keys.reverse = keys.eraseDups := by
  induction keys using List.reverseRecOn generalizing s with
  | nil =>
      obtain rfl := Option.some.inj h
      rfl
  | append_singleton keys key ih =>
      obtain ⟨r, hr, -, rfl⟩ := refer_concat.1 h
      have there : key ∈ r.keys ↔ key ∈ keys := by
        rw [← List.mem_reverse, ih hr, List.mem_eraseDups]
      have last : ([key].removeAll keys).eraseDups = if key ∈ keys then [] else [key] := by
        by_cases hkey : key ∈ keys <;>
          simp [List.cons_removeAll, List.nil_removeAll, List.eraseDups_cons, hkey]
      rw [keys_enter, ih hr, List.eraseDups_append, last]
      simp only [there]

lemma nodup_refer {keys : List SlotKey} {s : Slots} (h : Slots.empty.refer keys = some s) :
    s.keys.reverse.Nodup := by
  induction keys using List.reverseRecOn generalizing s with
  | nil =>
      obtain rfl := Option.some.inj h
      exact List.nodup_nil
  | append_singleton keys key ih =>
      obtain ⟨r, hr, -, rfl⟩ := refer_concat.1 h
      rw [keys_enter]
      split
      · simpa using ih hr
      · next hkey => exact List.nodup_append.2 ⟨ih hr, by simp, by grind⟩

/-- References to fewer keys than there are numbers all succeed. -/
lemma exists_refer {keys : List SlotKey} (h : keys.eraseDups.length < slotLimit) :
    ∃ s, Slots.empty.refer keys = some s := by
  induction keys using List.reverseRecOn with
  | nil => exact ⟨_, rfl⟩
  | append_singleton keys key ih =>
      rw [List.eraseDups_append, List.length_append] at h
      have fewer : keys.eraseDups.length < slotLimit := by omega
      obtain ⟨r, hr⟩ := ih fewer
      rw [← keys_refer hr, List.length_reverse, ← r.counted] at fewer
      exact ⟨_, refer_concat.2 ⟨r, hr, fewer, rfl⟩⟩

lemma get?_le_size {s : Slots} {key : SlotKey} {slot : Nat} (h : s.get? key = some slot) :
    1 ≤ slot ∧ slot ≤ s.size := by
  obtain ⟨place, rfl, hplace⟩ := get?_eq_some h
  obtain ⟨hlt, -, -⟩ := List.idxOf?_eq_some_iff.1 hplace
  rw [List.length_reverse, ← s.counted] at hlt
  exact ⟨Nat.le_add_left .., hlt⟩

/-- **References have given out numbers** from one, in the order of first references, and a key
keeps the number it was given. -/
structure Numbered (keys : List SlotKey) (s : Slots) : Prop where
  /-- The numbers are the places of the distinct keys. -/
  place : ∀ key place, s.get? key = some (place + 1) ↔ keys.eraseDups[place]? = some key
  /-- There is one for each of the keys. -/
  bound : ∀ key slot, s.get? key = some slot → 1 ≤ slot ∧ slot ≤ keys.eraseDups.length
  /-- Every reference has given the number that the key has at the end. -/
  stable : ∀ before key after, keys = before ++ key :: after → ∃ r slot r',
    Slots.empty.refer before = some r ∧ r.slot key = some (slot, r') ∧ s.get? key = some slot
  /-- The numbers fit sixteen bits. -/
  fits : ∀ key slot, s.get? key = some slot → slot < UInt16.size

/-- **Fewer keys than there are numbers** are numbered. -/
lemma exists_numbered {keys : List SlotKey} (hfew : keys.eraseDups.length < slotLimit) :
    ∃ s, Slots.empty.refer keys = some s ∧ Numbered keys s := by
  obtain ⟨s, hs⟩ := exists_refer hfew
  have ordered := keys_refer hs
  have bound : ∀ key slot, s.get? key = some slot → 1 ≤ slot ∧ slot ≤ keys.eraseDups.length := by
    intro key slot hslot
    rw [← ordered, List.length_reverse, ← s.counted]
    exact get?_le_size hslot
  refine ⟨s, hs, fun key place => ?_, bound, ?_, fun key slot hslot => ?_⟩
  · rw [← ordered]
    exact get?_eq_iff_getElem? (nodup_refer hs)
  · rintro before key after rfl
    rw [List.append_cons, refer_append, Option.bind_eq_some_iff] at hs
    obtain ⟨r', hr', hafter⟩ := hs
    obtain ⟨r, hr, hsize, rfl⟩ := refer_concat.1 hr'
    exact ⟨r, _, _, hr, slot_eq_some.2 ⟨hsize, rfl⟩,
      get?_of_within (within_refer hafter) (r.get?_enter key)⟩
  · have := bound key slot hslot
    rw [slotLimit] at hfew
    rw [UInt16.size]
    omega

end Slots

namespace Emit

/-- What the action does to the allocation is to refer to keys. -/
def Refers (α : Type) (x : Emit α) : Prop :=
  ∀ s, ∃ keys, s.slots.refer keys = some (x.ending s).2.slots

variable {α β : Type}

lemma Refers.bind {x : Emit α} {f : α → Emit β} (hx : Refers α x) (hf : ∀ a, Refers β (f a)) :
    Refers β (x >>= f) := by
  intro s
  obtain ⟨keys, hkeys⟩ := hx s
  rw [ending_bind]
  rcases hending : x.ending s with ⟨e | a, r⟩
  · exact ⟨keys, by rw [hkeys, hending]⟩
  · obtain ⟨more, hmore⟩ := hf a r
    refine ⟨keys ++ more, ?_⟩
    rw [Slots.refer_append, hkeys, hending]
    exact hmore

lemma refers_get : Refers State get := fun _ => ⟨[], rfl⟩

lemma refers_pure (a : α) : Refers α (pure a) := fun _ => ⟨[], rfl⟩

lemma refers_refuse (fault : ShapeFault) (span : Span) : Refers α (refuse fault span) :=
  fun _ => ⟨[], rfl⟩

lemma refers_emit (i : Instruction) : Refers Unit (emit i) := fun _ => ⟨[], rfl⟩

/-- Where there is no number left the allocation stays as it is. -/
lemma refers_slotOf (key : SlotKey) : Refers Nat (slotOf key) := by
  intro s
  cases hslot : s.slots.slot key with
  | none => exact ⟨[], by simp [Slots.refer, slotOf, ending, hslot]⟩
  | some found =>
      exact ⟨[key], by simp [Slots.refer, slotOf, ending, hslot]⟩

end Emit

/-- **Lowering changes the allocation by references only**, also where it fails. -/
lemma law_refers : Emit.Law fun α _ x => Emit.Refers α x where
  pure := refers_pure
  bind := Refers.bind
  refuse _ := refers_refuse
  argsSlot _ hf := refers_get.bind fun _ => (refers_slotOf _).bind hf
  innermostLoop stmt span := by
    refine refers_get.bind fun s => ?_
    split
    · exact refers_pure _
    · exact refers_refuse _ _
  jumpUnlessReturned i target hx := by
    refine (refers_emit i).bind fun _ => hx.bind fun _ => refers_get.bind fun s => ?_
    split
    · exact refers_pure _
    · exact refers_emit _
  emit := refers_emit
  emitAll _ _ := ⟨[], rfl⟩
  freshLabel _ := ⟨[], rfl⟩
  varSlot _ := refers_slotOf _
  listLiteralSlot :=
    have counts : Refers Nat (modifyGet fun s : State =>
        (s.listLiterals, { s with listLiterals := s.listLiterals + 1 })) := fun _ => ⟨[], rfl⟩
    counts.bind fun _ => refers_slotOf _
  withLoop labels hx s := by
    rw [ending_withLoop]
    exact hx { s with loops := s.loops.push labels }
  inCall hx s := by
    rw [ending_inCall]
    exact hx s.deeper

/-! ## Stores -/

/-- **The keys whose slots an expression may store to**: the variables it counts, and the arrays of
list literals and calls from given numbers on. -/
def Touched (names : List String) (literals depth : Nat) : SlotKey → Prop
  | .var name => name ∈ names
  | .listLiteral number => literals ≤ number
  | .callArgs _ nesting => depth ≤ nesting

lemma Touched.mono {names names' : List String} {literals literals' depth depth' : Nat}
    {key : SlotKey} (h : Touched names' literals' depth' key) (hnames : names' ⊆ names)
    (hliterals : literals ≤ literals') (hdepth : depth ≤ depth') :
    Touched names literals depth key := by
  cases key with
  | var name => exact hnames h
  | listLiteral number => exact Nat.le_trans hliterals h
  | callArgs callee nesting => exact Nat.le_trans hdepth h

/-- The code stores to slots of such keys only. -/
def Stores (slots : Slots) (names : List String) (literals depth : Nat) (code : List Instruction) :
    Prop :=
  ∀ slot, .store slot ∈ code → ∃ key, slots.get? key = some slot ∧ Touched names literals depth key

section Stores

variable {env : Env} {scope : ScopeId} {slots : Slots} {names names' : List String}
  {literals literals' depth depth' : Nat} {code more : List Instruction}

lemma Stores.mono (h : Stores slots names' literals' depth' code) (hnames : names' ⊆ names)
    (hliterals : literals ≤ literals') (hdepth : depth ≤ depth') :
    Stores slots names literals depth code := by
  intro slot hslot
  obtain ⟨key, hkey, htouched⟩ := h slot hslot
  exact ⟨key, hkey, htouched.mono hnames hliterals hdepth⟩

lemma Stores.append (h : Stores slots names literals depth code)
    (h' : Stores slots names literals depth more) :
    Stores slots names literals depth (code ++ more) :=
  fun slot hslot => (List.mem_append.1 hslot).elim (h slot) (h' slot)

/-- What is not touched is not stored to: no two keys share a slot. -/
lemma Stores.not_mem (h : Stores slots names literals depth code) {key : SlotKey} {slot : Nat}
    (hkey : slots.get? key = some slot) (hfree : ¬ Touched names literals depth key) :
    .store slot ∉ code := by
  intro hmem
  obtain ⟨other, hother, htouched⟩ := h slot hmem
  obtain rfl := Slots.get?_inj hkey hother
  exact hfree htouched

/-- Code without stores. -/
lemma stores_of_not_mem (h : ∀ slot, .store slot ∉ code) : Stores slots names literals depth code :=
  fun slot hslot => absurd hslot (h slot)

lemma Straight.touches {d e : Nat} (h : Straight slots names d code e) :
    Stores slots names literals depth code := by
  intro slot hslot
  obtain ⟨name, hname, hkey⟩ := h.stores slot hslot
  exact ⟨.var name, hkey, hname⟩

/-- The code that makes an array stores it. -/
lemma stores_arrayCode {slot : Nat} {key : SlotKey} (hkey : slots.get? key = some slot)
    (htouched : Touched names literals depth key) :
    Stores slots names literals depth (arrayCode slot) := by
  intro other hother
  obtain rfl : other = slot := by simpa [arrayCode, construct] using hother
  exact ⟨key, hkey, htouched⟩

lemma stores_resultCode (ret : Ty) : Stores slots names literals depth (resultCode ret) := by
  rw [resultCode]
  split
  · exact stores_of_not_mem (by simp)
  · exact (straight_cast ret 0).touches

lemma stores_openCopy (slot : Nat) (ty : Ty) :
    Stores slots names literals depth (.load slot :: openCopy ty) := by
  rw [openCopy]
  split <;> exact stores_of_not_mem (by simp)

lemma stores_closeCopy (ty : Ty) : Stores slots names literals depth (closeCopy ty) := by
  rw [closeCopy]
  split <;> exact stores_of_not_mem (by simp [construct])

lemma CalleeCode.stores {t u : Supply} {name : String} (h : CalleeCode env scope t name code u) :
    Stores slots names literals depth code := by
  cases h with
  | fn _ => exact (straight_closure name 0).touches
  | var _ => exact stores_of_not_mem (by simp)

lemma BinaryCode.stores {t u : Supply} {e lhs rhs : Expr} {middle last : List Instruction}
    (h : BinaryCode t e lhs rhs middle last u) : Stores slots names literals depth last := by
  cases h with
  | arith _ _ _ => exact (straight_arith _ 0).touches
  | scalar _ _ =>
      exact (straight_unbox _ 0).touches.append
        (stores_of_not_mem (by simp [truthCode, callStatic]))
  | @text _ op _ _ _ _ _ =>
      exact stores_of_not_mem (by cases op <;> simp [truthCode, callVirtual, callStatic])
  | identity _ _ => exact stores_of_not_mem (by simp [truthCode, callStatic])
  | index _ _ => exact (straight_index _ 0).touches

mutual

/-- **The code of an expression stores to variables it counts and to arrays of its own.** -/
theorem ExprCode.stores {depth : Nat} {t u : Supply} {e : Expr} {code : List Instruction}
    (h : ExprCode env scope depth t e code u) (hwithin : u.slots.Within slots) :
    Stores slots e.counted t.literals depth code := by
  match h with
  | .leaf hleaf => exact (hleaf.straight hwithin 0).touches
  | .unary _ hoperand hlast =>
      have operand := hoperand.stores (hlast.within.slots.trans hwithin)
      exact (operand.mono hlast.counted (Nat.le_refl _) (Nat.le_refl _)).append
        (hlast.straight hwithin 0).touches
  | .binary _ hlhs _ hrhs hlast =>
      have within := hlast.within.slots.trans hwithin
      have first := hlhs.stores (hrhs.within.slots.trans within)
      have second := hrhs.stores within
      have lhs := first.mono hlast.counted.1 (Nat.le_refl _) (Nat.le_refl _)
      have rhs := second.mono hlast.counted.2 hlhs.within.literals (Nat.le_refl _)
      exact ((lhs.append (hlast.straight 0).touches).append rhs).append hlast.stores
  | .list _ helements =>
      have elements := helements.stores hwithin
      have array := Supply.get?_literal (helements.within.slots.trans hwithin)
      rw [Expr.counted]
      exact ((stores_arrayCode array (Nat.le_refl _)).append
        (elements.mono (List.Subset.refl _) t.within_withLiteral.literals (Nat.le_refl _))).append
        (stores_of_not_mem (by simp [wrapCode, construct]))
  | .call hfirst _ hargs =>
      have args := hargs.stores hwithin
      have array := Supply.get?_slotOf (hargs.within.slots.trans hwithin)
      rw [counted_call]
      exact (((hfirst.stores.append (stores_arrayCode array (Nat.le_refl _))).append
        (args.mono (List.Subset.refl _) hfirst.within.literals (Nat.le_succ _))).append
        (stores_of_not_mem (by simp [callVirtual]))).append (stores_resultCode _)

theorem ElementsCode.stores {depth slot : Nat} {t u : Supply} {es : List Expr}
    {code : List Instruction} (h : ElementsCode env scope depth slot t es code u)
    (hwithin : u.slots.Within slots) :
    Stores slots (Expr.countedIn es) t.literals depth code := by
  match h with
  | .nil => exact stores_of_not_mem (by simp)
  | .cons _ he hrest =>
      have first := he.stores (hrest.within.slots.trans hwithin)
      have rest := hrest.stores hwithin
      rw [Expr.countedIn]
      exact ((((stores_openCopy slot _).append
        (first.mono (List.subset_append_left ..) (Nat.le_refl _) (Nat.le_refl _))).append
        (stores_closeCopy _)).append (stores_of_not_mem (by simp [callVirtual]))).append
        (rest.mono (List.subset_append_right ..) he.within.literals (Nat.le_refl _))

end

end Stores

/-! ## Arrays that stay in their slots -/

/-- The first array that a piece of code makes is stored into `slot` by the instruction at `place`,
and nothing is stored there again before the code loads it for the last time. -/
def HoldsArray (own : List Instruction) (slot place : Nat) : Prop :=
  ∃ front body rest, own = front ++ arrayCode slot ++ body ++ .load slot :: rest ∧
    place = front.length + 3 ∧ .construct .arrayInit ∉ front ∧ .store slot ∉ body ∧
    .load slot ∉ rest

/-- **The array of a list literal or a call is kept.**  What `e` is lowered to stands in `code`, and
holds the array that is stored at `place`. -/
def ArrayKept (env : Env) (scope : ScopeId) (code : List Instruction) (e : Expr) (place : Nat) :
    Prop :=
  ∃ before own after slot start, code = before ++ own ++ after ∧
    (∃ r r', (lowerExpr env scope e).Does r () r' ∧ r'.code = r.code ++ own) ∧
    HoldsArray own slot start ∧ place = before.length + start

/-- All these arrays are kept, one after another. -/
def ArraysKept (env : Env) (scope : ScopeId) (code : List Instruction) (es : List Expr) : Prop :=
  ∃ places : List Nat, places.Pairwise (· < ·) ∧ List.Forall₂ (ArrayKept env scope code) es places

section Arrays

variable {env : Env} {scope : ScopeId} {code more : List Instruction} {e : Expr}
    {es es' : List Expr}
  {place : Nat}

lemma ArrayKept.shift (h : ArrayKept env scope code e place) (front back : List Instruction) :
    ArrayKept env scope (front ++ code ++ back) e (front.length + place) := by
  obtain ⟨before, own, after, slot, start, rfl, hown, hholds, rfl⟩ := h
  refine ⟨front ++ before, own, after ++ back, slot, start, by simp, hown, hholds, ?_⟩
  rw [List.length_append, Nat.add_assoc]

lemma HoldsArray.lt_length {slot : Nat} (h : HoldsArray code slot place) : place < code.length := by
  obtain ⟨front, body, rest, rfl, rfl, -⟩ := h
  simp only [arrayCode, List.length_append, List.length_cons, List.length_nil]
  omega

lemma ArrayKept.lt_length (h : ArrayKept env scope code e place) : place < code.length := by
  obtain ⟨before, own, after, slot, start, rfl, -, hholds, rfl⟩ := h
  have := hholds.lt_length
  simp only [List.length_append]
  omega

lemma lt_length_of_kept {places : List Nat}
    (h : List.Forall₂ (ArrayKept env scope code) es places) :
    ∀ place ∈ places, place < code.length := by
  induction h with
  | nil => simp
  | cons hkept _ ih => exact List.forall_mem_cons.2 ⟨hkept.lt_length, ih⟩

lemma arraysKept_nil : ArraysKept env scope code [] := ⟨[], .nil, .nil⟩

/-- Code around the arrays moves their places. -/
lemma ArraysKept.shift (h : ArraysKept env scope code es) (front back : List Instruction) :
    ∃ places : List Nat, places.Pairwise (· < ·) ∧ (∀ place ∈ places, front.length ≤ place) ∧
      List.Forall₂ (ArrayKept env scope (front ++ code ++ back)) es places := by
  obtain ⟨places, hsorted, hall⟩ := h
  refine ⟨places.map (front.length + ·), ?_, by simp, ?_⟩
  · exact hsorted.map _ fun _ _ hlt => Nat.add_lt_add_left hlt _
  · exact List.forall₂_map_right_iff.2 (hall.imp fun _ _ hkept => hkept.shift front back)

lemma ArraysKept.append (h : ArraysKept env scope code es) (h' : ArraysKept env scope more es') :
    ArraysKept env scope (code ++ more) (es ++ es') := by
  obtain ⟨places, hsorted, hall⟩ := h
  obtain ⟨places', hsorted', hge, hall'⟩ := h'.shift code []
  have hlt := lt_length_of_kept hall
  have left : List.Forall₂ (ArrayKept env scope (code ++ more)) es places :=
    hall.imp fun _ _ hkept => by simpa using hkept.shift [] more
  rw [List.append_nil] at hall'
  refine ⟨places ++ places', List.pairwise_append.2 ⟨hsorted, hsorted', ?_⟩,
    List.rel_append left hall'⟩
  intro place hplace place' hplace'
  exact Nat.lt_of_lt_of_le (hlt place hplace) (hge place' hplace')

lemma ArraysKept.append_left (h : ArraysKept env scope code es) :
    ArraysKept env scope (code ++ more) es := by
  simpa using h.append arraysKept_nil

lemma ArraysKept.append_right (h : ArraysKept env scope more es) :
    ArraysKept env scope (code ++ more) es :=
  arraysKept_nil.append h

/-- An array, and those made while it is filled. -/
lemma ArraysKept.cons {front back : List Instruction} (h : ArraysKept env scope code es)
    (hkept : ArrayKept env scope (front ++ code ++ back) e place) (hlt : place < front.length) :
    ArraysKept env scope (front ++ code ++ back) (e :: es) := by
  obtain ⟨places, hsorted, hge, hall⟩ := h.shift front back
  refine ⟨place :: places, List.pairwise_cons.2 ⟨fun place' hplace' => ?_, hsorted⟩,
    .cons hkept hall⟩
  exact Nat.lt_of_lt_of_le hlt (hge place' hplace')

/-- The array an expression fills itself. -/
lemma ExprCode.arrayKept {depth slot : Nat} {t u : Supply} (h : ExprCode env scope depth t e code u)
    (hholds : HoldsArray code slot place) : ArrayKept env scope code e place := by
  let r : State := ⟨⟨t.labels⟩, t.slots, {}, #[], t.literals, depth⟩
  exact ⟨[], code, [], slot, place, by simp, ⟨r, _, h.does r rfl rfl, rfl⟩, hholds, by simp⟩

lemma LeafCode.arrays {t u : Supply} (h : LeafCode env scope t e code u) : e.arrays = [] := by
  cases h with
  | int | bool | str | fn _ | var _ | pointer => simp [Expr.arrays]

lemma UnaryCode.arrays {t u : Supply} {operand : Expr} (h : UnaryCode t e operand code u) :
    e.arrays = operand.arrays := by
  cases h with
  | neg _ | not _ | count _ _ _ _ | lenText _ | lenList _ | chop _ => simp [Expr.arrays]

lemma BinaryCode.arrays {t u : Supply} {lhs rhs : Expr} {middle last : List Instruction}
    (h : BinaryCode t e lhs rhs middle last u) : e.arrays = lhs.arrays ++ rhs.arrays := by
  cases h with
  | arith _ _ _ | scalar _ _ | text _ _ | identity _ _ | index _ _ =>
      simp [Expr.arrays, Expr.arraysIn]

/-- The callee makes no array. -/
lemma CalleeCode.not_arrayInit {t u : Supply} {name : String}
    (h : CalleeCode env scope t name code u) : .construct .arrayInit ∉ code := by
  cases h with
  | fn _ =>
      have other : LibraryMethod.arrayInit.ref ≠ LibraryMethod.closureInit.ref := fun h => by
        simpa [LibraryMethod.resolve?_ref] using congrArg LibraryMethod.resolve? h
      simp [closureCode, construct, other]
  | var _ => simp [construct]

lemma not_load_resultCode (ret : Ty) (slot : Nat) : .load slot ∉ resultCode ret := by
  cases ret <;> simp [resultCode, Ty.isVoid, downcast, Ty.boxedClass?]

lemma holdsArray_list {slot : Nat} (h : .store slot ∉ code) :
    HoldsArray (arrayCode slot ++ code ++ wrapCode slot) slot 3 :=
  ⟨[], code ++ [.new ClassName.list, .dup], [.construct .listInit],
    by simp [wrapCode], rfl, by simp, by simpa using h, by simp [construct]⟩

lemma holdsArray_call {t u : Supply} {name : String} {slot : Nat} {ret : Ty}
    (h : CalleeCode env scope t name code u) (hmore : .store slot ∉ more) :
    HoldsArray (callCode slot ret code more) slot (code.length + 3) :=
  ⟨code, more, .callVirtual .closureInvoke :: resultCode ret,
    by simp [callCode], rfl, h.not_arrayInit, hmore, by simp [callVirtual, not_load_resultCode]⟩

mutual

/-- **Every array in the code of an expression is kept.** -/
theorem ExprCode.arraysKept {depth : Nat} {t u : Supply} {e : Expr} {code : List Instruction}
    (h : ExprCode env scope depth t e code u) : ArraysKept env scope code e.arrays := by
  match h with
  | .leaf hleaf =>
      rw [hleaf.arrays]
      exact arraysKept_nil
  | .unary _ hoperand hlast =>
      rw [hlast.arrays]
      exact hoperand.arraysKept.append_left
  | .binary _ hlhs _ hrhs hlast =>
      rw [hlast.arrays]
      exact (hlhs.arraysKept.append_left.append hrhs.arraysKept).append_left
  | .list hroom helements =>
      -- the elements are lowered with the literal counted, so theirs have higher numbers
      have spared := (helements.stores (.refl _)).not_mem
        (Supply.get?_literal helements.within.slots) (Nat.not_succ_le_self _)
      rw [Expr.arrays]
      exact helements.arraysKept.cons
        ((ExprCode.list hroom helements).arrayKept (holdsArray_list spared))
        (by simp [arrayCode])
  | @ExprCode.call _ _ _ _ _ _ note note' name args _ _ hfirst hroom hargs =>
      -- the arguments are lowered one call deeper
      have spared := (hargs.stores (.refl _)).not_mem (Supply.get?_slotOf hargs.within.slots)
        (Nat.not_succ_le_self _)
      have own : ExprCode env scope depth t (.call note (.ident note' name) args) _ u :=
        .call hfirst hroom hargs
      have kept := own.arrayKept (holdsArray_call hfirst spared)
      rw [Expr.arrays, Expr.arrays, List.nil_append]
      rw [List.append_assoc _ _ (resultCode _)] at kept ⊢
      exact hargs.arraysKept.cons kept (by simp [arrayCode])

theorem ElementsCode.arraysKept {depth slot : Nat} {t u : Supply} {es : List Expr}
    {code : List Instruction} (h : ElementsCode env scope depth slot t es code u) :
    ArraysKept env scope code (Expr.arraysIn es) := by
  match h with
  | .nil => exact arraysKept_nil
  | .cons _ he hrest =>
      rw [Expr.arraysIn]
      exact he.arraysKept.append_right.append_left.append_left.append hrest.arraysKept

end

end Arrays

/-! ## Lowering an expression -/

/-- **Arrays are not overwritten while they are filled.**  The code of an expression that is lowered
in any state stores to the variables that the expression counts and to arrays numbered from the
state's counters on; no list literal and no call in it loses its array to what is lowered in
between.  Lowering refers to keys and does nothing else to the allocation, no two keys share a slot,
and references number the keys as they come, as long as there are fewer keys than numbers. -/
theorem temporaries_kept {env : Env} {scope : ScopeId} {e : Expr} {s s' : State}
    (h : (lowerExpr env scope e).Does s () s') :
    (∃ code : List Instruction, s'.code = s.code ++ code ∧
      Stores s'.slots e.counted s.listLiterals s.callDepth code ∧
      ArraysKept env scope code e.arrays) ∧
    (∃ referred, s.slots.refer referred = some s'.slots) ∧
    (∀ key key' slot, s'.slots.get? key = some slot → s'.slots.get? key' = some slot → key = key') ∧
    ∀ keys : List SlotKey, keys.eraseDups.length < slotLimit →
      ∃ slots, Slots.empty.refer keys = some slots ∧ Slots.Numbered keys slots := by
  have refers := law_refers.lowerExpr env scope e s
  rw [h] at refers
  obtain ⟨code, u, hcode, rfl⟩ := lowerExpr_does_iff.1 h
  refine ⟨⟨code, rfl, hcode.stores (.refl _), hcode.arraysKept⟩, refers, ?_,
    fun _ => Slots.exists_numbered⟩
  intro key key' slot hkey hkey'
  exact Slots.get?_inj hkey hkey'

/-- A function is called with what it returns for a list, `f(f([1, ++x]))`: three arrays are being
filled at once. -/
def nestedCalls : Expr :=
  let int : Note := { ty := .int }
  let list : Expr := .list { ty := .list .int } [.int int 1, .unary int .inc (.ident int "x")]
  .call int (.ident int "f") [.call int (.ident int "f") [list]]

theorem nestedCalls_kept : ∃ s', (lowerExpr ⟨.initial, {}⟩ .global nestedCalls).Does {} () s' ∧
    nestedCalls.arrays.length = 3 ∧ ∃ code : List Instruction, s'.code = (#[] : Code) ++ code ∧
      Stores s'.slots ["x"] 0 0 code ∧
      ArraysKept ⟨.initial, {}⟩ .global code nestedCalls.arrays := by
  have succeeds : ((lowerExpr ⟨.initial, {}⟩ .global nestedCalls).ending {}).1.toOption =
      some () := by
    decide +kernel
  rcases hending : (lowerExpr ⟨.initial, {}⟩ .global nestedCalls).ending {} with ⟨e | u, s'⟩
  · simp [hending, Except.toOption] at succeeds
  · exact ⟨s', hending, rfl, (temporaries_kept hending).1⟩

end Lowering

end StackBackend
