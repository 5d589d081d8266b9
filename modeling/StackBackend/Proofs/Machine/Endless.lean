import StackBackend.Proofs.Machine.Heap
import Mathlib.Data.Finset.Card
import Mathlib.Data.Finset.Prod
import Mathlib.Order.Monotone.Basic
import Mathlib.Order.WellFounded

/-!
# Values without an end

A list can be made to contain itself, and then there is no end to what is in it.  This module says
what the bounded readings of the heap have to do with that.

* `Heap.Unending` — a value from which one can go from object to object forever;
* `Heap.unwraps_iff` — the wrappers of a value come to an end, or there is no end to them;
* `Heap.textOf?_eq_none_iff` — a value has no text exactly if there is no end to what is in it;
* `Heap.equal?_eq_some_iff` — a comparison that comes to an end does so within the bound;
* `LibraryMethod.Unending` — the calls of the library that follow references without end.

Each bound is justified by counting.  A reading that follows references one step further answers at
the same addresses and maybe at some more; once it answers at no more of them it never will, and
there are only so many addresses (`found_within_card`).
-/

namespace StackBackend

/-- Answers that are found step by step, at finitely many keys, are found within as many steps as
there are keys. -/
lemma found_within_card {K α : Type} (found : Nat → K → Option α) {keys : Finset K}
    (keeps : ∀ n k a, found n k = some a → found (n + 1) k = some a)
    (lasts : ∀ n, (∀ k ∈ keys, found (n + 1) k = found n k) →
      ∀ k ∈ keys, found (n + 2) k = found (n + 1) k)
    {n : Nat} {k : K} {a : α} (hk : k ∈ keys) (h : found n k = some a) :
    found keys.card k = some a := by
  let known (n : Nat) : Finset K := keys.filter fun k => (found n k).isSome
  have grows : Monotone known := by
    refine monotone_nat_of_le_succ fun n k hk => ?_
    obtain ⟨inside, hsome⟩ := Finset.mem_filter.1 hk
    obtain ⟨b, hb⟩ := Option.isSome_iff_exists.1 hsome
    exact Finset.mem_filter.2 ⟨inside, by rw [keeps n k b hb]; rfl⟩
  -- two sets of keys of one size are the same, and then so are the answers
  have same : ∀ n, (known n).card = (known (n + 1)).card → ∀ k ∈ keys,
      found (n + 1) k = found n k := by
    intro n hcard k hk
    have hknown : known n = known (n + 1) :=
      Finset.eq_of_subset_of_card_le (grows n.le_succ) hcard.ge
    cases hb : found n k with
    | some b => exact keeps n k b hb
    | none =>
        have unknown : k ∉ known (n + 1) := by
          rw [← hknown]
          simp [known, hb]
        simpa [known, hk] using unknown
  have stable : ∀ n, (known n).card = (known (n + 1)).card →
      (known (n + 1)).card = (known (n + 2)).card := by
    intro n hcard
    have hlast := lasts n (same n hcard)
    refine congrArg Finset.card (Finset.filter_congr fun k hk => ?_)
    rw [hlast k hk]
  have settled : known (max n keys.card) = known keys.card := by
    have hcard := Nat.stabilises_of_monotone (f := fun n => (known n).card)
      (fun _ _ hle => Finset.card_le_card (grows hle))
      (fun n => Finset.card_le_card (Finset.filter_subset _ _)) stable
        (Nat.le_max_right n keys.card)
    exact (Finset.eq_of_subset_of_card_le (grows (Nat.le_max_right _ _)) hcard.le).symm
  have persists : ∀ {n m : Nat} {b : α}, n ≤ m → found n k = some b → found m k = some b := by
    intro n m b hle hb
    induction m, hle using Nat.le_induction with
    | base => exact hb
    | succ m _ ih => exact keeps m k b ih
  have later : found (max n keys.card) k = some a := persists (Nat.le_max_left _ _) h
  have already : k ∈ known keys.card := by
    rw [← settled]
    exact Finset.mem_filter.2 ⟨hk, by rw [later]; rfl⟩
  obtain ⟨b, hb⟩ := Option.isSome_iff_exists.1 (Finset.mem_filter.1 already).2
  rw [hb, ← persists (Nat.le_max_right n keys.card) hb, later]

namespace Heap

/-- An object is a wrapper around another. -/
def Wraps (h : Heap) (a b : Nat) : Prop := h.get? a = some (.list (.ref b))

/-- An object is a wrapper around another, or holds it as an item. -/
def Holds (h : Heap) (a b : Nat) : Prop :=
  h.Wraps a b ∨ ∃ items, h.get? a = some (.array items) ∧ Value.ref b ∈ items

/-- A value from which one can go on from object to object without end. -/
def Unending (leads : Nat → Nat → Prop) (v : Value) : Prop :=
  ∃ path : Nat → Nat, v = .ref (path 0) ∧ ∀ n, leads (path n) (path (n + 1))

lemma unending_ref_iff {leads : Nat → Nat → Prop} {a : Nat} :
    Unending leads (.ref a) ↔ ¬ Acc (flip leads) a := by
  rw [not_acc_iff_exists_descending_chain]
  constructor
  · rintro ⟨path, hstart, hleads⟩
    exact ⟨path, (Value.ref.inj hstart).symm, hleads⟩
  · rintro ⟨path, rfl, hleads⟩
    exact ⟨path, rfl, hleads⟩

lemma Unending.imp {leads leads' : Nat → Nat → Prop} {v : Value}
    (himp : ∀ a b, leads a b → leads' a b) (hv : Unending leads v) : Unending leads' v := by
  obtain ⟨path, hstart, hleads⟩ := hv
  exact ⟨path, hstart, fun n => himp _ _ (hleads n)⟩

variable {h : Heap}

lemma Wraps.holds {a b : Nat} (hwraps : h.Wraps a b) : h.Holds a b := .inl hwraps

/-! ## Wrappers -/

lemma itemsWithin_succ {wrappers : Nat} {v : Value} {items : Array Value}
    (hitems : h.itemsWithin wrappers v = some items) :
    h.itemsWithin (wrappers + 1) v = some items := by
  induction wrappers generalizing v with
  | zero =>
      rw [itemsWithin] at hitems ⊢
      split at hitems <;> simp_all
  | succ wrappers ih =>
      rw [itemsWithin] at hitems ⊢
      split at hitems
      · simpa using hitems
      · exact ih (by simpa using hitems)
      · simp at hitems

/-- A value is an object of the heap, or there is nothing to it. -/
lemma eq_ref_or_object?_eq_none (h : Heap) (v : Value) :
    (∃ a < h.objects.size, v = .ref a) ∨ h.object? v = none := by
  cases v with
  | ref a =>
      by_cases inside : a < h.objects.size
      · exact .inl ⟨a, inside, rfl⟩
      · exact .inr (by simpa [object?, get?] using inside)
  | _ => exact .inr rfl

lemma itemsWithin_of_object?_none {v : Value} (hv : h.object? v = none) (wrappers : Nat) :
    h.itemsWithin wrappers v = none := by
  rw [itemsWithin]
  simp [hv]

/-- **Items behind any number of wrappers are found.** -/
lemma items?_of_itemsWithin {wrappers : Nat} {v : Value} {items : Array Value}
    (hitems : h.itemsWithin wrappers v = some items) : h.items? v = some items := by
  rcases h.eq_ref_or_object?_eq_none v with ⟨a, inside, rfl⟩ | hnone
  · have lasts : ∀ n, (∀ a ∈ Finset.range h.objects.size,
        h.itemsWithin (n + 1) (.ref a) = h.itemsWithin n (.ref a)) →
        ∀ a ∈ Finset.range h.objects.size,
          h.itemsWithin (n + 2) (.ref a) = h.itemsWithin (n + 1) (.ref a) := by
      intro n hsame a _
      have everywhere : ∀ v, h.itemsWithin (n + 1) v = h.itemsWithin n v := by
        intro v
        rcases h.eq_ref_or_object?_eq_none v with ⟨b, hb, rfl⟩ | hnone
        · exact hsame b (Finset.mem_range.2 hb)
        · rw [itemsWithin_of_object?_none hnone, itemsWithin_of_object?_none hnone]
      rw [itemsWithin, itemsWithin]
      simp only [everywhere]
    have := found_within_card (fun n a => h.itemsWithin n (.ref a))
      (fun _ _ _ => itemsWithin_succ) lasts (Finset.mem_range.2 inside) hitems
    rwa [Finset.card_range] at this
  · rw [itemsWithin_of_object?_none hnone] at hitems
    simp at hitems

lemma unwrapsWithin_of_object?_none {v : Value} (hv : h.object? v = none) (wrappers : Nat) :
    h.unwrapsWithin wrappers v = true := by
  rw [unwrapsWithin]
  simp [hv]

lemma unwrapsWithin_succ {wrappers : Nat} {v : Value} (hv : h.unwrapsWithin wrappers v = true) :
    h.unwrapsWithin (wrappers + 1) v = true := by
  induction wrappers generalizing v with
  | zero =>
      rw [unwrapsWithin] at hv ⊢
      split at hv <;> simp_all
  | succ wrappers ih =>
      rw [unwrapsWithin] at hv ⊢
      split at hv
      · exact ih (by simpa using hv)
      · rfl

lemma unwraps_of_unwrapsWithin {wrappers : Nat} {v : Value}
    (hv : h.unwrapsWithin wrappers v = true) : h.unwraps v = true := by
  rcases h.eq_ref_or_object?_eq_none v with ⟨a, inside, rfl⟩ | hnone
  · let found (n a : Nat) : Option Unit := if h.unwrapsWithin n (.ref a) then some () else none
    have same : ∀ {n m a b}, found n a = found m b →
        h.unwrapsWithin n (.ref a) = h.unwrapsWithin m (.ref b) := by
      intro n m a b hfound
      simp only [found] at hfound
      split at hfound <;> split at hfound <;> simp_all
    have lasts : ∀ n, (∀ a ∈ Finset.range h.objects.size, found (n + 1) a = found n a) →
        ∀ a ∈ Finset.range h.objects.size, found (n + 2) a = found (n + 1) a := by
      intro n hsame a _
      have everywhere : ∀ v, h.unwrapsWithin (n + 1) v = h.unwrapsWithin n v := by
        intro v
        rcases h.eq_ref_or_object?_eq_none v with ⟨b, hb, rfl⟩ | hnone
        · exact same (hsame b (Finset.mem_range.2 hb))
        · rw [unwrapsWithin_of_object?_none hnone, unwrapsWithin_of_object?_none hnone]
      simp only [found]
      rw [unwrapsWithin, unwrapsWithin]
      simp only [everywhere]
    have keeps : ∀ n a u, found n a = some u → found (n + 1) a = some u := by
      intro n a u hfound
      simp only [found, Option.ite_none_right_eq_some] at hfound ⊢
      exact ⟨unwrapsWithin_succ hfound.1, hfound.2⟩
    have := found_within_card _ keeps lasts (Finset.mem_range.2 inside) (n := wrappers) (a := ())
      (by simp [found, hv])
    simpa [found, unwraps] using this
  · exact unwrapsWithin_of_object?_none hnone _

lemma acc_of_unwrapsWithin {wrappers a : Nat} (hv : h.unwrapsWithin wrappers (.ref a) = true) :
    Acc (flip h.Wraps) a := by
  induction wrappers generalizing a with
  | zero =>
      refine Acc.intro a fun b hb => ?_
      have hb : h.get? a = some (.list (.ref b)) := hb
      rw [unwrapsWithin] at hv
      simp [object?, hb] at hv
  | succ wrappers ih =>
      refine Acc.intro a fun b hb => ih ?_
      have hb : h.get? a = some (.list (.ref b)) := hb
      rw [unwrapsWithin] at hv
      simpa [object?, hb] using hv

lemma unwrapsWithin_of_acc {a : Nat} (ha : Acc (flip h.Wraps) a) :
    ∃ wrappers, h.unwrapsWithin wrappers (.ref a) = true := by
  induction ha with
  | intro a _ ih =>
      by_cases wraps : ∃ b, h.Wraps a b
      · obtain ⟨b, hb⟩ := wraps
        obtain ⟨wrappers, hb'⟩ := ih b hb
        refine ⟨wrappers + 1, ?_⟩
        have hb : h.get? a = some (.list (.ref b)) := hb
        rw [unwrapsWithin]
        simpa [object?, hb] using hb'
      · -- what the object wraps, if anything, is no object
        refine ⟨1, ?_⟩
        rw [unwrapsWithin]
        split
        · next backing hlist =>
            cases backing with
            | ref b => exact absurd ⟨b, hlist⟩ wraps
            | _ =>
                exact unwrapsWithin_of_object?_none rfl _
        · rfl

/-- **Wrappers come to an end within the bound, or not at all.** -/
lemma unwraps_iff {v : Value} : h.unwraps v = true ↔ ¬ Unending h.Wraps v := by
  cases v with
  | ref a =>
      rw [unending_ref_iff, not_not]
      refine ⟨acc_of_unwrapsWithin, fun ha => ?_⟩
      obtain ⟨wrappers, hwithin⟩ := unwrapsWithin_of_acc ha
      exact unwraps_of_unwrapsWithin hwithin
  | _ =>
      refine ⟨?_, fun _ => unwrapsWithin_of_object?_none rfl _⟩
      rintro - ⟨path, hstart, -⟩
      simp at hstart

/-! ## Texts -/

lemma mapM_of_imp {α β : Type} {f g : α → Option β} (himp : ∀ a b, f a = some b → g a = some b)
    {as : List α} {bs : List β} (has : as.mapM f = some bs) : as.mapM g = some bs := by
  induction as generalizing bs with
  | nil => simpa using has
  | cons a as ih =>
      simp only [List.mapM_cons, Option.bind_eq_bind, Option.bind_eq_some_iff] at has ⊢
      obtain ⟨b, hb, bs, hbs, hcons⟩ := has
      exact ⟨b, himp a b hb, bs, ih hbs, hcons⟩

lemma textWithin_succ {depth : Nat} {v : Value} {text : String}
    (htext : h.textWithin depth v = some text) : h.textWithin (depth + 1) v = some text := by
  induction depth generalizing v text with
  | zero => cases v <;> simp_all [textWithin]
  | succ depth ih =>
      cases v with
      | ref a =>
          rw [textWithin] at htext ⊢
          split at htext
          · next ends =>
              rw [if_pos ends]
              split at htext
              · next items hitems =>
                  simp only [Option.bind_eq_bind, Option.bind_eq_some_iff] at htext ⊢
                  obtain ⟨texts, htexts, hjoin⟩ := htext
                  exact ⟨texts, mapM_of_imp (fun _ _ => ih) htexts, hjoin⟩
              · next hitems => simpa [hitems] using htext
          · simp at htext
      | _ => simpa [textWithin] using htext

lemma textWithin_mono {depth depth' : Nat} (hle : depth ≤ depth') {v : Value} {text : String}
    (htext : h.textWithin depth v = some text) : h.textWithin depth' v = some text := by
  induction depth', hle using Nat.le_induction with
  | base => exact htext
  | succ depth' _ ih => exact textWithin_succ ih

/-- **A text that is found at any depth is found.** -/
lemma textOf?_of_textWithin {depth : Nat} {v : Value} {text : String}
    (htext : h.textWithin depth v = some text) : h.textOf? v = some text := by
  cases v with
  | ref a =>
      by_cases inside : a < h.objects.size
      · have lasts : ∀ n, (∀ a ∈ Finset.range h.objects.size,
            h.textWithin (n + 2) (.ref a) = h.textWithin (n + 1) (.ref a)) →
            ∀ a ∈ Finset.range h.objects.size,
              h.textWithin (n + 3) (.ref a) = h.textWithin (n + 2) (.ref a) := by
          intro n hsame a _
          have everywhere : h.textWithin (n + 2) = h.textWithin (n + 1) := by
            funext v
            rcases h.eq_ref_or_object?_eq_none v with ⟨b, hb, rfl⟩ | hnone
            · exact hsame b (Finset.mem_range.2 hb)
            · have ends : h.unwraps v = true := unwrapsWithin_of_object?_none hnone _
              have empty : h.items? v = none := itemsWithin_of_object?_none hnone _
              cases v with
              | ref b => simp [textWithin, ends, empty]
              | _ => simp [textWithin]
          rw [textWithin, textWithin, everywhere]
        have := found_within_card (fun n a => h.textWithin (n + 1) (.ref a))
          (fun _ _ _ => textWithin_succ) lasts (Finset.mem_range.2 inside) (textWithin_succ htext)
        rwa [Finset.card_range] at this
      · refine textWithin_mono (Nat.le_add_left 1 _) ?_
        have hnone : h.object? (.ref a) = none := by simpa [object?, get?] using inside
        have ends : h.unwraps (.ref a) = true := unwrapsWithin_of_object?_none hnone _
        have empty : h.items? (.ref a) = none := itemsWithin_of_object?_none hnone _
        cases depth with
        | zero => simp [textWithin] at htext
        | succ depth => simpa [textWithin, ends, empty] using htext
  | _ => simpa [textOf?, textWithin] using htext

/-- Items are those of an array, behind wrappers. -/
lemma exists_array_of_itemsWithin {wrappers a : Nat} {items : Array Value}
    (hitems : h.itemsWithin wrappers (.ref a) = some items) :
    ∃ b, Relation.ReflTransGen h.Holds a b ∧ h.get? b = some (.array items) := by
  induction wrappers generalizing a with
  | zero =>
      rw [itemsWithin] at hitems
      split at hitems
      · next harray =>
          obtain rfl := by simpa using hitems
          exact ⟨a, .refl, harray⟩
      · simp at hitems
      · simp at hitems
  | succ wrappers ih =>
      rw [itemsWithin] at hitems
      split at hitems
      · next harray =>
          obtain rfl := by simpa using hitems
          exact ⟨a, .refl, harray⟩
      · next backing hlist =>
          replace hitems : h.itemsWithin wrappers backing = some items := by simpa using hitems
          cases backing with
          | ref b =>
              obtain ⟨array, hleads, harray⟩ := ih hitems
              exact ⟨array, .head (.inl hlist) hleads, harray⟩
          | _ =>
              rw [itemsWithin_of_object?_none rfl] at hitems
              simp at hitems
      · simp at hitems

/-- Values that each have a text have theirs at one depth. -/
lemma exists_mapM_textWithin {vs : List Value}
    (hvs : ∀ v ∈ vs, ∃ depth text, h.textWithin depth v = some text) :
    ∃ depth texts, vs.mapM (h.textWithin depth) = some texts := by
  induction vs with
  | nil => exact ⟨0, [], rfl⟩
  | cons v vs ih =>
      obtain ⟨depth, text, htext⟩ := hvs v List.mem_cons_self
      obtain ⟨depth', texts, htexts⟩ := ih fun v hv => hvs v (List.mem_cons_of_mem _ hv)
      refine ⟨max depth depth', text :: texts, ?_⟩
      simp only [List.mapM_cons, Option.bind_eq_bind, Option.bind_eq_some_iff]
      exact ⟨text, textWithin_mono (Nat.le_max_left _ _) htext, texts,
        mapM_of_imp (fun _ _ => textWithin_mono (Nat.le_max_right _ _)) htexts, rfl⟩

lemma unwraps_of_acc {a : Nat} (ha : Acc (flip h.Holds) a) : h.unwraps (.ref a) = true := by
  rw [unwraps_iff]
  intro hwraps
  exact unending_ref_iff.1 (hwraps.imp fun _ _ => Wraps.holds) ha

lemma exists_textWithin_of_acc {a : Nat} (ha : Acc (flip h.Holds) a) :
    ∃ depth text, h.textWithin depth (.ref a) = some text := by
  -- an item is behind the wrappers, so the induction goes by more than one step
  have further := ha.transGen
  clear ha
  induction further with
  | intro a before ih =>
      have accessible : Acc (flip h.Holds) a := Acc.intro a fun b hb =>
        Subrelation.accessible (fun hab => Relation.TransGen.single hab) (before b (.single hb))
      have ends := unwraps_of_acc accessible
      cases hitems : h.items? (.ref a) with
      | none =>
          refine ⟨1, (h.get? a).elim "?" objectText, ?_⟩
          simp [textWithin, ends, hitems]
      | some items =>
          obtain ⟨array, hleads, harray⟩ := exists_array_of_itemsWithin hitems
          have each : ∀ v ∈ items.toList, ∃ depth text, h.textWithin depth v = some text := by
            intro v hv
            cases v with
            | ref b =>
                have holds : h.Holds array b := .inr ⟨items, harray, by simpa using hv⟩
                exact ih b (Relation.transGen_swap.2 (.tail' hleads holds))
            | _ => exact ⟨0, _, by rw [textWithin]⟩
          obtain ⟨depth, texts, htexts⟩ := exists_mapM_textWithin each
          refine ⟨depth + 1, "[" ++ ", ".intercalate texts ++ "]", ?_⟩
          simp [textWithin, ends, hitems, htexts]

/-- An object is followed to its end if its wrappers and its items are. -/
lemma acc_of_items {a : Nat} (ha : Acc (flip h.Wraps) a)
    (hitems : ∀ items, h.items? (.ref a) = some items → ∀ b, Value.ref b ∈ items →
      Acc (flip h.Holds) b) : Acc (flip h.Holds) a := by
  induction ha with
  | intro a _ ih =>
      refine Acc.intro a fun b hb => ?_
      rcases hb with hwraps | ⟨items, harray, hmem⟩
      · refine ih b hwraps fun items hb => hitems items ?_
        have hwraps : h.get? a = some (.list (.ref b)) := hwraps
        have within : h.itemsWithin (h.objects.size + 1) (.ref a) = some items := by
          rw [itemsWithin]
          simpa [object?, hwraps] using
            show h.itemsWithin h.objects.size (.ref b) = some items from hb
        exact items?_of_itemsWithin within
      · exact hitems items (items?_of_array harray) b hmem

lemma mem_of_mapM {α β : Type} {f : α → Option β} {as : List α} {bs : List β}
    (has : as.mapM f = some bs) {a : α} (ha : a ∈ as) : ∃ b, f a = some b := by
  induction as generalizing bs with
  | nil => simp at ha
  | cons first as ih =>
      simp only [List.mapM_cons, Option.bind_eq_bind, Option.bind_eq_some_iff] at has
      obtain ⟨b, hb, bs, hbs, -⟩ := has
      rcases List.mem_cons.1 ha with rfl | ha
      · exact ⟨b, hb⟩
      · exact ih hbs ha

lemma acc_of_textWithin {depth a : Nat} {text : String}
    (htext : h.textWithin depth (.ref a) = some text) : Acc (flip h.Holds) a := by
  induction depth generalizing a text with
  | zero => simp [textWithin] at htext
  | succ depth ih =>
      rw [textWithin] at htext
      split at htext
      · next ends =>
          refine acc_of_items (acc_of_unwrapsWithin ends) fun items hitems b hb => ?_
          simp only [hitems, Option.bind_eq_bind, Option.bind_eq_some_iff] at htext
          obtain ⟨texts, htexts, -⟩ := htext
          obtain ⟨text, hb'⟩ := mem_of_mapM htexts (by simpa using hb)
          exact ih hb'
      · simp at htext

/-- **A value has no text exactly if there is no end to what is in it.** -/
lemma textOf?_eq_none_iff {v : Value} : h.textOf? v = none ↔ Unending h.Holds v := by
  cases v with
  | ref a =>
      rw [unending_ref_iff, ← not_iff_not, not_not]
      constructor
      · intro hsome
        obtain ⟨text, htext⟩ := Option.ne_none_iff_exists'.1 hsome
        exact acc_of_textWithin htext
      · intro ha
        obtain ⟨depth, text, htext⟩ := exists_textWithin_of_acc ha
        simp [textOf?_of_textWithin htext]
  | _ =>
      refine ⟨fun hnone => by simp [textOf?, textWithin] at hnone, ?_⟩
      rintro ⟨path, hstart, -⟩
      simp at hstart

/-! ## Equality -/

lemma agree?_of_imp {test test' : Value → Value → Option Bool}
    (himp : ∀ a b r, test a b = some r → test' a b = some r) {as bs : List Value} {result : Bool}
    (hagree : agree? test as bs = some result) : agree? test' as bs = some result := by
  induction as, bs using agree?.induct with
  | case1 a as b bs ih =>
      simp only [agree?, Option.bind_eq_bind, Option.bind_eq_some_iff] at hagree ⊢
      obtain ⟨same, hsame, hrest⟩ := hagree
      refine ⟨same, himp a b same hsame, ?_⟩
      cases same with
      | true => exact ih (by simpa using hrest)
      | false => simpa using hrest
  | case2 as bs hshort => rwa [agree?.eq_2 test' as bs hshort, ← agree?.eq_2 test as bs hshort]

lemma equalWithin_succ {depth : Nat} {v w : Value} {result : Bool}
    (hequal : h.equalWithin depth v w = some result) :
    h.equalWithin (depth + 1) v w = some result := by
  induction depth generalizing v w result with
  | zero =>
      cases v <;> cases w <;> simp_all [equalWithin]
  | succ depth ih =>
      cases v with
      | ref a =>
          cases w with
          | ref b =>
              rw [equalWithin] at hequal ⊢
              split
              · next same => simpa [same] using hequal
              · next distinct =>
                  rw [if_neg distinct] at hequal
                  split at hequal
                  · next ends =>
                      rw [if_pos ends]
                      split at hequal
                      · next as bs has hbs =>
                          split at hequal
                          · next sizes =>
                              simp only [if_pos sizes]
                              exact agree?_of_imp (fun _ _ _ => ih) hequal
                          · next sizes => simpa only [if_neg sizes] using hequal
                      · simpa using hequal
                  · simp at hequal
          | _ => simpa [equalWithin] using hequal
      | _ => cases w <;> simpa [equalWithin] using hequal

/-- A comparison is settled at once unless both values are objects of the heap. -/
lemma equalWithin_of_object?_none {v w : Value} (hnone : h.object? v = none ∨ h.object? w = none)
    (depth : Nat) : h.equalWithin (depth + 1) v w = h.equalWithin 1 v w := by
  cases v with
  | ref a =>
      cases w with
      | ref b =>
          rw [equalWithin, equalWithin]
          rcases hnone with ha | hb
          · simp [show h.items? (.ref a) = none from itemsWithin_of_object?_none ha _]
          · simp [show h.items? (.ref b) = none from itemsWithin_of_object?_none hb _]
      | _ => simp [equalWithin]
  | _ => cases w <;> simp [equalWithin]

/-- **A comparison that comes to an end does so within the bound.** -/
lemma equal?_eq_some_iff {v w : Value} {result : Bool} :
    h.equal? v w = some result ↔ ∃ depth, h.equalWithin depth v w = some result := by
  refine ⟨fun hequal => ⟨_, hequal⟩, ?_⟩
  rintro ⟨depth, hequal⟩
  have hequal := equalWithin_succ hequal
  rcases h.eq_ref_or_object?_eq_none v with ⟨a, ha, rfl⟩ | hv
  · rcases h.eq_ref_or_object?_eq_none w with ⟨b, hb, rfl⟩ | hw
    · let addresses := Finset.range h.objects.size
      let found (n : Nat) (pair : Nat × Nat) := h.equalWithin (n + 1) (.ref pair.1) (.ref pair.2)
      have lasts : ∀ n, (∀ pair ∈ addresses ×ˢ addresses, found (n + 1) pair = found n pair) →
          ∀ pair ∈ addresses ×ˢ addresses, found (n + 2) pair = found (n + 1) pair := by
        intro n hsame pair _
        have everywhere : h.equalWithin (n + 2) = h.equalWithin (n + 1) := by
          funext v w
          rcases h.eq_ref_or_object?_eq_none v with ⟨a, ha, rfl⟩ | hv
          · rcases h.eq_ref_or_object?_eq_none w with ⟨b, hb, rfl⟩ | hw
            · exact hsame (a, b)
                (Finset.mem_product.2 ⟨Finset.mem_range.2 ha, Finset.mem_range.2 hb⟩)
            · rw [equalWithin_of_object?_none (.inr hw), equalWithin_of_object?_none (.inr hw) n]
          · rw [equalWithin_of_object?_none (.inl hv), equalWithin_of_object?_none (.inl hv) n]
        simp only [found]
        rw [equalWithin, equalWithin, everywhere]
      have := found_within_card found (fun _ _ _ => equalWithin_succ) lasts
        (k := (a, b)) (Finset.mem_product.2 ⟨Finset.mem_range.2 ha, Finset.mem_range.2 hb⟩) hequal
      rwa [Finset.card_product, Finset.card_range] at this
    · rw [equalWithin_of_object?_none (.inr hw)] at hequal
      rwa [equal?, equalWithin_of_object?_none (.inr hw)]
  · rw [equalWithin_of_object?_none (.inl hv)] at hequal
    rwa [equal?, equalWithin_of_object?_none (.inl hv)]

end Heap

/-! ## Calls of the library -/

/-- The call follows references without end: it prints a value without an end, or looks for the
items behind wrappers without an end. -/
def LibraryMethod.Unending (h : Heap) (this : Value) (args : List Value) : LibraryMethod → Prop
  | println .text | println .object => Heap.Unending h.Holds (args[0]?.getD .null)
  | listCopy => Heap.Unending h.Wraps (args[0]?.getD .null)
  | listSize => Heap.Unending h.Wraps this
  | closureInvoke =>
    (∃ receiver name, h.object? this = some (.closure receiver name)) ∧
      Heap.Unending h.Wraps (args[0]?.getD .null)
  | _ => False

end StackBackend
