import StackBackend.Proofs.Meaning.Representation

/-!
# List literals

A list literal puts a new array into its slot, adds its elements one by one, and puts a list around
the array.

* `yields_copied` — an element that is a list goes in as a copy;
* `Gathers` — the array as far as it is filled: it starts empty (`exists_gathers`), evaluating an
  element leaves it alone (`Gathers.after`), and an element is added at its end (`Gathers.add`);
* `Fills` — what is shown of the code of the elements, first by first (`Fills.cons`);
* `yields_list` — the list around the filled array.

The array is hidden while it is filled, so that filling it changes nothing of what other values
stand for.
-/

namespace StackBackend.Data

open Lowering Typing

variable {s : Site} {Γ : Context} {slots : Slots} {hidden : Set Nat} {literals : Nat} {pc : Nat}
  {stack : List Value}

/-! ## Elements of lists -/

/-- **An element on its way into an array.**  A list is copied into an object of its own. -/
lemma yields_copied {ty : Ty} {code : List Instruction}
    (hcode : s.Has pc (openCopy ty ++ code ++ closeCopy ty)) {store : Store}
    {result : EStateM.Result Mishap Store Datum}
    (hvalue : ∀ stack locals w,
      Holds Γ slots hidden ⟨pc + (openCopy ty).length, stack, locals, w⟩ store →
      Yields s Γ slots hidden literals ⟨pc + (openCopy ty).length, stack, locals, w⟩
        (pc + (openCopy ty).length + code.length) stack ty result)
    {locals : Array Value} {w : World}
    (hholds : Holds Γ slots hidden ⟨pc, stack, locals, w⟩ store) :
    Yields s Γ slots hidden literals ⟨pc, stack, locals, w⟩
      (pc + (openCopy ty ++ code ++ closeCopy ty).length) stack ty result := by
  cases ty with
  | list element =>
      have hcode : s.Has pc ([Instruction.new ClassName.list, Instruction.dup] ++ code ++
          [Instruction.construct .listCopy]) := hcode
      rw [Site.has_append, Site.has_append, Site.has_cons, Site.has_cons, List.length_append,
        ← Nat.add_assoc, Site.has_cons] at hcode
      obtain ⟨⟨⟨hnew, hdup, -⟩, -⟩, hclose, -⟩ := hcode
      -- The object of the copy is made before the element is evaluated, and filled after.
      let copy := w.heap.objects.size
      let w₁ : World := { w with heap := (w.heap.alloc (.uninit ClassName.list)).2 }
      have made : s.Steps ⟨pc, stack, locals, w⟩ 2
          ⟨pc + 2, .ref copy :: .ref copy :: stack, locals, w₁⟩ :=
        (Site.step_new hnew).trans (Site.step_dup hdup)
      have grown : w.heap.Within w₁.heap := w.heap.within_alloc _
      have value := hvalue (.ref copy :: .ref copy :: stack) locals w₁ (hholds.same rfl grown)
      have unmoved : Keeps Γ slots literals ⟨pc, stack, locals, w⟩
          ⟨pc + 2, .ref copy :: .ref copy :: stack, locals, w₁⟩ := keeps_of_same rfl grown rfl
      match result, value with
      | .error why store, value => exact Yields.after made unmoved value
      | .ok d store, ⟨hty, n, v, locals', w', hsteps, hkeeps, hv, hholds'⟩ =>
          obtain ⟨address, array, items, data, rfl, rfl, hobj, hitems, hsize, hall, hdata⟩ :=
            hv.of_list hty
          have waiting : w'.heap.get? copy = some (.uninit ClassName.list) :=
            hkeeps.heap copy _ (by simp [w₁, copy])
          have within := (grown.trans hkeeps.heap).wrapCopy w.heap.get?_size waiting items
          obtain ⟨hlist, harray⟩ := Heap.get?_wrapCopy waiting items
          have shown : w'.heap.objects.size ∉ hidden :=
            fun hhidden => Nat.lt_irrefl _ (hholds'.bounded _ hhidden)
          have called :
              s.Steps ⟨pc + 2 + code.length, .ref address :: .ref copy :: .ref copy :: stack,
                locals', w'⟩ 1 ⟨pc + 2 + code.length + 1, .ref copy :: stack, locals', _⟩ :=
            Site.step_listCopy hclose waiting hobj hitems
          have place : pc + (openCopy (.list element) ++ code ++ closeCopy (.list element)).length
              = pc + 2 + code.length + 1 := by
            simp [openCopy, closeCopy, Ty.isList]
            omega
          rw [place]
          refine ⟨hty, _, _, _, _, (made.trans hsteps).trans called, ?_, ?_, ?_⟩
          · exact ⟨within, hkeeps.printed, hkeeps.locals⟩
          · exact .list hlist harray shown hsize fun i v d hi hd =>
              (hdata i v d hi hd).wrapCopy waiting _
          · refine hholds'.change rfl ?_ fun hd => hd.wrapCopy waiting _
            simp [Heap.size_wrapCopy]
  | _ => simpa [openCopy, closeCopy, Ty.isList] using
      hvalue stack locals w (by simpa [openCopy, Ty.isList] using hholds)

/-- **The array of a list literal, as far as it is filled**: it is in its slot, and its items stand
for `data`.  It was made after the point `base`, and it is hidden. -/
structure Gathers (Γ : Context) (slots : Slots) (hidden : Set Nat) (literals : Nat) (base : Point)
    (slot array : Nat) (data : List Datum) (p : Point) : Prop where
  keeps : Keeps Γ slots literals base p
  fresh : base.world.heap.get? array = none
  hides : array ∈ hidden
  held : p.locals[slot]?.getD .null = .ref array
  items : ∃ items, p.world.heap.get? array = some (.array items) ∧ items.size = data.length ∧
    ∀ (i : Nat) v d, items[i]? = some v → data[i]? = some d → Denotes p.world.heap hidden v d

variable {base p q : Point} {slot array : Nat} {data : List Datum} {store : Store}

/-- Evaluating an element leaves the array alone. -/
lemma Gathers.after {literals' : Nat} (h : Gathers Γ slots hidden literals base slot array data p)
    (hkeeps : Keeps Γ slots literals' p q) (hle : literals ≤ literals')
    (hslot : ¬ Scratch Γ slots literals' slot) :
    Gathers Γ slots hidden literals base slot array data q where
  keeps := h.keeps.trans (hkeeps.mono hle)
  fresh := h.fresh
  hides := h.hides
  held := (hkeeps.locals slot hslot).trans h.held
  items := by
    obtain ⟨items, hitems, hsize, hall⟩ := h.items
    exact ⟨items, hkeeps.heap _ _ hitems, hsize,
      fun i v d hv hd => (hall i v d hv hd).within hkeeps.heap⟩

/-- **An element is added.** -/
lemma Gathers.add {locals : Array Value} {w : World} {value : Value} {d : Datum}
    (h : Gathers Γ slots hidden literals base slot array data
      ⟨pc, value :: .ref array :: stack, locals, w⟩)
    (hvalue : Denotes w.heap hidden value d)
    (hholds : Holds Γ slots hidden ⟨pc, value :: .ref array :: stack, locals, w⟩ store)
    (hcode : s.Has pc [.callVirtual .arrayAdd, .pop]) :
    ∃ w', s.Steps ⟨pc, value :: .ref array :: stack, locals, w⟩ 2 ⟨pc + 2, stack, locals, w'⟩ ∧
      Gathers Γ slots hidden literals base slot array (data ++ [d]) ⟨pc + 2, stack, locals, w'⟩ ∧
      Holds Γ slots hidden ⟨pc + 2, stack, locals, w'⟩ store := by
  obtain ⟨items, hitems, hsize, hall⟩ := h.items
  have hitems : w.heap.get? array = some (.array items) := hitems
  have unnoticed {v : Value} {d : Datum} (hv : Denotes w.heap hidden v d) :
      Denotes (w.heap.set array (.array (items.push value))) hidden v d :=
    hv.set hitems rfl (fun _ _ => h.hides) _
  simp only [Site.has_cons] at hcode
  refine ⟨_, Site.step_arrayAdd hcode.1 hcode.2.1 hitems, ?_, ?_⟩
  · refine ⟨⟨h.keeps.heap.set h.fresh hitems _, h.keeps.printed, h.keeps.locals⟩, h.fresh, h.hides,
      h.held, items.push value, ?_, by simp [hsize], fun i v d' hv hd' => unnoticed ?_⟩
    · rw [Heap.get?_set hitems, if_pos rfl]
    · -- Either the item is the one just added, or it was there before.
      by_cases hlast : i = items.size
      · obtain rfl : value = v := by simpa [hlast] using hv
        obtain rfl : d = d' := by simpa [hlast, hsize] using hd'
        exact hvalue
      · rw [Array.getElem?_push, if_neg hlast] at hv
        have hlt : i < data.length := by
          have := (Array.getElem?_eq_some_iff.1 hv).1
          omega
        rw [List.getElem?_append_left hlt] at hd'
        exact hall i v d' hv hd'
  · exact hholds.change rfl (by simp [Heap.size_set]) unnoticed

/-- **What the code of the elements does**: it fills the array with what evaluation gives. -/
def Fills (s : Site) (Γ : Context) (slots : Slots) (hidden : Set Nat) (literals : Nat)
    (base : Point) (slot array : Nat) (data : List Datum) (p : Point) (pc : Nat)
    (stack : List Value) (ty : Ty) : EStateM.Result Mishap Store (List Datum) → Prop
  | .ok more store => (∀ d ∈ more, d.HasTy ty) ∧ ∃ n locals w,
      s.Steps p n ⟨pc, stack, locals, w⟩ ∧
      Gathers Γ slots hidden literals base slot array (data ++ more) ⟨pc, stack, locals, w⟩ ∧
      Holds Γ slots hidden ⟨pc, stack, locals, w⟩ store
  | .error why store => ∃ n q fault, s.Steps p n q ∧ Keeps Γ slots literals base q ∧
      Holds Γ slots hidden q store ∧ s.Fails q fault ∧ why.Raises fault

/-- The first element goes in, then the others. -/
lemma Fills.cons {literals' n pc' : Nat} {e : Expr} {rest : List Expr} {ty : Ty}
    (hgathers : Gathers Γ slots hidden literals base slot array data p)
    (hle : literals ≤ literals') (hslot : ¬ Scratch Γ slots literals' slot)
    (hload : s.Steps p n ⟨pc, .ref array :: stack, p.locals, p.world⟩) {pc₁ : Nat}
    (hfirst : Yields s Γ slots hidden literals' ⟨pc, .ref array :: stack, p.locals, p.world⟩ pc₁
      (.ref array :: stack) ty (eval e store))
    (hadd : s.Has pc₁ [.callVirtual .arrayAdd, .pop])
    (hrest : ∀ d store locals w, Gathers Γ slots hidden literals base slot array (data ++ [d])
        ⟨pc₁ + 2, stack, locals, w⟩ → Holds Γ slots hidden ⟨pc₁ + 2, stack, locals, w⟩ store →
      Fills s Γ slots hidden literals base slot array (data ++ [d]) ⟨pc₁ + 2, stack, locals, w⟩ pc'
        stack ty (evalAll rest store)) :
    Fills s Γ slots hidden literals base slot array data p pc' stack ty
      (evalAll (e :: rest) store) := by
  rw [evalAll_cons]
  cases hd : eval e store with
  | error why store =>
      rw [hd] at hfirst
      obtain ⟨k, q, fault, hsteps, hkeeps, hholds, hfails, hraises⟩ := hfirst
      have loaded : Keeps Γ slots literals p q :=
        ⟨hkeeps.heap, hkeeps.printed, (hkeeps.mono hle).locals⟩
      exact ⟨_, q, fault, hload.trans hsteps, hgathers.keeps.trans loaded, hholds, hfails, hraises⟩
  | ok d store =>
      rw [hd] at hfirst
      obtain ⟨hty, k, value, locals, w, hsteps, hkeeps, hvalue, hholds⟩ := hfirst
      have gathered := hgathers.after (q := ⟨pc₁, value :: .ref array :: stack, locals, w⟩)
        ⟨hkeeps.heap, hkeeps.printed, hkeeps.locals⟩ hle hslot
      obtain ⟨w', hadds, gathered', hholds'⟩ := gathered.add hvalue hholds hadd
      have fills := hrest d store locals w' gathered' hholds'
      have steps := (hload.trans hsteps).trans hadds
      dsimp only
      cases hmore : evalAll rest store with
      | error why store =>
          rw [hmore] at fills
          obtain ⟨k', q, fault, hsteps', hkeeps', hholds', hfails, hraises⟩ := fills
          exact ⟨_, q, fault, steps.trans hsteps', hkeeps', hholds', hfails, hraises⟩
      | ok more store =>
          rw [hmore] at fills
          obtain ⟨hall, k', locals', w'', hsteps', gathered'', hholds''⟩ := fills
          refine ⟨?_, _, locals', w'', steps.trans hsteps', ?_, hholds''⟩
          · intro d' hd'
            rcases List.mem_cons.1 hd' with rfl | hd'
            · exact hty
            · exact hall d' hd'
          · simpa using gathered''

/-- **A list literal starts** with an empty array, in the slot of its number. -/
lemma exists_gathers {number : Nat} (hslot : slots.get? (.listLiteral number) = some slot)
    (hle : literals ≤ number) (hcode : s.Has pc (arrayCode slot)) {locals : Array Value} {w : World}
    (hholds : Holds Γ slots hidden ⟨pc, stack, locals, w⟩ store) :
    ∃ array locals' w', array ∉ hidden ∧
      s.Steps ⟨pc, stack, locals, w⟩ 4 ⟨pc + 4, stack, locals', w'⟩ ∧
      Gathers Γ slots (insert array hidden) literals ⟨pc, stack, locals, w⟩ slot array []
        ⟨pc + 4, stack, locals', w'⟩ ∧
      Holds Γ slots (insert array hidden) ⟨pc + 4, stack, locals', w'⟩ store := by
  have grown : w.heap.Within (w.heap.alloc (.array #[])).2 := w.heap.within_alloc _
  have fresh : w.heap.get? w.heap.objects.size = none := w.heap.get?_size
  refine ⟨w.heap.objects.size, _, _, fun hhidden => Nat.lt_irrefl _ (hholds.bounded _ hhidden),
    Site.step_array hcode, ?_, ?_⟩
  · exact {
      keeps := keeps_write (.inr ⟨number, hle, hslot⟩) rfl grown rfl
      fresh
      hides := Set.mem_insert _ _
      held := by simp [getD_writeLocal]
      items := ⟨#[], by simp, rfl, by simp⟩ }
  · constructor
    · intro name ty hname
      obtain ⟨hty, held⟩ := hholds.vars name ty hname
      refine ⟨hty, fun slot' hslot' => ?_⟩
      have apart : slot' ≠ slot := by
        rintro rfl
        simpa using Slots.get?_inj hslot hslot'
      rw [getD_writeLocal, if_neg apart]
      exact (held slot' hslot').hide grown fresh
    · rintro a (rfl | ha)
      · simp [Heap.size_alloc]
      · have := hholds.bounded a ha
        simp only [Heap.size_alloc]
        exact Nat.lt_succ_of_lt this

/-- **A list literal ends** with a list around the array. -/
lemma yields_list {n : Nat} {ty : Ty} {result : EStateM.Result Mishap Store (List Datum)}
    (hshown : array ∉ hidden) (hsteps : s.Steps base n p)
    (hfills : Fills s Γ slots (insert array hidden) literals base slot array [] p pc stack ty
      result) (hcode : s.Has pc (wrapCode slot)) :
    Yields s Γ slots hidden literals base (pc + (wrapCode slot).length) stack (.list ty)
      (asList result) := by
  have shown : hidden ⊆ insert array hidden := Set.subset_insert _ _
  match result, hfills with
  | .error why store, ⟨k, q, fault, hk, hkeeps, hholds, hfails, hraises⟩ =>
      exact ⟨_, q, fault, hsteps.trans hk, hkeeps, hholds.reveal shown, hfails, hraises⟩
  | .ok data store, ⟨hall, k, locals, w, hk, hgathers, hholds⟩ =>
      obtain ⟨items, hitems, hsize, hdata⟩ := hgathers.items
      have grown : w.heap.Within (w.heap.alloc (.list (.ref array))).2 := w.heap.within_alloc _
      refine ⟨.list hall, _, _, _, _,
        (hsteps.trans hk).trans (Site.step_wrap hcode hgathers.held hitems),
        hgathers.keeps.trans (keeps_of_same rfl grown rfl), ?_, ?_⟩
      · exact .list (by simp) (grown array _ hitems) hshown hsize
          fun i v d hv hd => ((hdata i v d hv hd).within grown).reveal shown
      · exact Holds.same (hholds.reveal shown) rfl grown

end StackBackend.Data
