import StackBackend.Proofs.StackProfile.Exactness
import Mathlib.Data.List.Nodup

/-!
# Depths that flow through code

To show that code passes the depth analysis it is enough to write a depth next to each of its
places and to check the places one by one.  `Flow d code jumps labels e` is such a check, made so
that it can be put together from the checks of parts.

**The check.**  `Flow` walks through the code with a depth.  Each instruction has to find its
operands, a return has to find nothing or exactly its result, and what comes behind an instruction
that ends a block may have any depth.  The depths at which labels are jumped to and defined are
collected on the way, in `jumps` and `labels`.

**What it proves.**  If every collected jump is to a collected label at its depth, and no label is
defined twice, then the depths written down are those that places are reached with
(`Annotates.depth_of_reaches`), so nothing goes wrong with them (`Certified.consistent`) and the
analysis succeeds as long as it can count them.
-/

namespace StackBackend

namespace Instruction

/-- Whether control comes from the instruction before and goes to the instruction behind, and
nowhere else. -/
def isStraight : Instruction → Bool
  | jump _ | ifZero _ | ifNonzero _ | ifInt .. | ifRef .. | label _ | ret | retValue => false
  | _ => true

lemma isStraight_eq (i : Instruction) :
    i.isStraight = (i.target?.isNone && i.defines?.isNone && !i.endsBlock) := by
  cases i <;> rfl

end Instruction

namespace StackProfile

open Instruction

/-! ## The check -/

/-- A label together with a depth. -/
abbrev LabelDepth := Label × Nat

/-- **Depths flow through code** from `d` at its start to `e` at its end. -/
inductive Flow : Nat → List Instruction → List LabelDepth → List LabelDepth → Nat → Prop
  | nil {d : Nat} : Flow d [] [] [] d
  | cons {d next e : Nat} {i : Instruction} {rest : List Instruction}
      {jumps labels : List LabelDepth} :
      i.pops ≤ d → (i = .ret → d = 0) → (i = .retValue → d = 1) →
      (i.endsBlock = false → next = i.depthAfter d) → Flow next rest jumps labels e →
      Flow d (i :: rest) (i.target?.toList.map (·, i.depthAfter d) ++ jumps)
        (i.defines?.toList.map (·, d) ++ labels) e

lemma Flow.append {d m e : Nat} {code more : List Instruction}
    {jumps labels jumps' labels' : List LabelDepth} (h : Flow d code jumps labels m)
    (h' : Flow m more jumps' labels' e) :
    Flow d (code ++ more) (jumps ++ jumps') (labels ++ labels') e := by
  induction h with
  | nil => exact h'
  | cons hpops hret hvalue hnext _ ih =>
      simp only [List.cons_append, List.append_assoc]
      exact .cons hpops hret hvalue hnext (ih h')

lemma Flow.definedLabels {d e : Nat} {code : List Instruction} {jumps labels : List LabelDepth}
    (h : Flow d code jumps labels e) : definedLabels code = labels.map Prod.fst := by
  induction h with
  | nil => rfl
  | cons _ _ _ _ _ ih => simp [definedLabels_cons, ih, Function.comp_def]

/-- The depth behind code without jumps, labels and returns; none if an instruction does not find
its operands. -/
def straightDepth? : Nat → List Instruction → Option Nat
  | d, [] => some d
  | d, i :: rest =>
    if i.isStraight ∧ i.pops ≤ d then straightDepth? (i.depthAfter d) rest else none

lemma Flow.straight {d e : Nat} {code : List Instruction} (h : straightDepth? d code = some e) :
    Flow d code [] [] e := by
  induction code generalizing d with
  | nil =>
      obtain rfl : d = e := by simpa [straightDepth?] using h
      exact .nil
  | cons i rest ih =>
      rw [straightDepth?] at h
      split at h
      · next hi =>
          obtain ⟨hstraight, hpops⟩ := hi
          simp only [isStraight_eq, Bool.and_eq_true, Option.isNone_iff_eq_none,
            Bool.not_eq_true'] at hstraight
          obtain ⟨⟨htarget, hdefines⟩, hends⟩ := hstraight
          have whole := Flow.cons hpops (by rintro rfl; simp [endsBlock] at hends)
            (by rintro rfl; simp [endsBlock] at hends) (fun _ => rfl) (ih h)
          simpa [htarget, hdefines] using whole
      · simp at h

/-! Instructions that are not straight, one by one. -/

lemma Flow.label (l : Label) (d : Nat) : Flow d [.label l] [] [(l, d)] d :=
  .cons (i := .label l) (Nat.zero_le d) nofun nofun (fun _ => rfl) .nil

lemma Flow.jump (l : Label) (d e : Nat) : Flow d [.jump l] [(l, d)] [] e :=
  .cons (i := .jump l) (Nat.zero_le d) nofun nofun nofun .nil

lemma Flow.ret (e : Nat) : Flow 0 [.ret] [] [] e :=
  .cons (i := .ret) (Nat.le_refl 0) (fun _ => rfl) nofun nofun .nil

lemma Flow.retValue (e : Nat) : Flow 1 [.retValue] [] [] e :=
  .cons (i := .retValue) (Nat.le_refl 1) nofun (fun _ => rfl) nofun .nil

/-- A branch that takes `k` operands goes both ways with what is below them. -/
lemma Flow.branch {i : Instruction} {l : Label} {k d : Nat} (htarget : i.target? = some l)
    (hends : i.endsBlock = false) (hpops : i.pops = k) (hpushes : i.pushes = 0) :
    Flow (d + k) [i] [(l, d)] [] d := by
  have hafter : i.depthAfter (d + k) = d := by
    rw [depthAfter, hpops, hpushes]
    omega
  have hdefines : i.defines? = none := by
    cases i <;> first | rfl | simp [target?] at htarget
  have whole : Flow (d + k) [i] _ _ d := .cons (by omega) (by rintro rfl; simp [endsBlock] at hends)
    (by rintro rfl; simp [endsBlock] at hends) (fun _ => hafter.symm) .nil
  simpa [htarget, hdefines, hafter] using whole

/-! ## What it proves -/

/-- The depths written next to the places of code, as a function, pass the check. -/
structure Annotates (code : List Instruction) (jumps labels : List LabelDepth) (depth : Nat → Nat) :
    Prop where
  pops : ∀ {place : Nat} {i : Instruction}, code[place]? = some i → i.pops ≤ depth place
  ret : ∀ {place : Nat}, code[place]? = some .ret → depth place = 0
  retValue : ∀ {place : Nat}, code[place]? = some .retValue → depth place = 1
  next : ∀ {place : Nat} {i : Instruction}, code[place]? = some i → i.endsBlock = false →
    depth (place + 1) = i.depthAfter (depth place)
  jump : ∀ {place : Nat} {i : Instruction} {l : Label}, code[place]? = some i →
    i.target? = some l → (l, i.depthAfter (depth place)) ∈ jumps
  label : ∀ {place : Nat} {l : Label}, code[place]? = some (.label l) → (l, depth place) ∈ labels

/-- Depths with that of one more place in front. -/
def startingAt (d : Nat) (depth : Nat → Nat) : Nat → Nat
  | 0 => d
  | place + 1 => depth place

lemma Flow.annotates {d e : Nat} {code : List Instruction} {jumps labels : List LabelDepth}
    (h : Flow d code jumps labels e) :
    ∃ depth, depth 0 = d ∧ depth code.length = e ∧ Annotates code jumps labels depth := by
  induction h with
  | @nil d => exact ⟨fun _ => d, rfl, rfl, by constructor <;> simp⟩
  | @cons d _ _ i rest _ _ hpops hret hvalue hnext _ ih =>
      obtain ⟨depth, hstart, hend, hrest⟩ := ih
      refine ⟨startingAt d depth, rfl, hend, ?_⟩
      -- the first place is the new instruction's, the others are those of the rest
      constructor
      · rintro (_ | place) j hj
        · obtain rfl : i = j := by simpa using hj
          exact hpops
        · exact hrest.pops (by simpa using hj)
      · rintro (_ | place) hj
        · exact hret (by simpa using hj)
        · exact hrest.ret (by simpa using hj)
      · rintro (_ | place) hj
        · exact hvalue (by simpa using hj)
        · exact hrest.retValue (by simpa using hj)
      · rintro (_ | place) j hj hends
        · obtain rfl : i = j := by simpa using hj
          exact hstart.trans (hnext hends)
        · exact hrest.next (by simpa using hj) hends
      · rintro (_ | place) j l hj hl
        · obtain rfl : i = j := by simpa using hj
          simp [hl, startingAt]
        · exact List.mem_append_right _ (hrest.jump (by simpa using hj) hl)
      · rintro (_ | place) l hj
        · obtain rfl : i = .label l := by simpa using hj
          simp [Instruction.defines?, startingAt]
        · exact List.mem_append_right _ (hrest.label (by simpa using hj))

/-- **The depths of a closed check are those that places are reached with.** -/
lemma Annotates.depth_of_reaches {code : Code} {jumps labels : List LabelDepth} {depth : Nat → Nat}
    (h : Annotates code.toList jumps labels depth) (hstart : depth 0 = 0)
    (closed : jumps ⊆ labels) (once : (labels.map Prod.fst).Nodup) {place d : Nat}
    (hd : Reaches code place d) : d = depth place := by
  induction hd with
  | start => exact hstart.symm
  | next _ hi _ hends ih => rw [h.next (by simpa using hi) hends, ih]
  | @jump place d target i l _ hi _ htarget hlabel ih =>
      -- the jump and the definition of its label were collected with one depth
      have jumped := closed (h.jump (by simpa using hi) htarget)
      have defined : (l, depth target) ∈ labels := h.label (by simpa using hlabel)
      have same := List.inj_on_of_nodup_map once jumped defined rfl
      rw [ih]
      exact congrArg Prod.snd same

/-- Code that has a closed check: jumps go to labels at their depth, each defined once. -/
def Certified (code : Code) (e : Nat) : Prop :=
  ∃ jumps labels, Flow 0 code.toList jumps labels e ∧ jumps ⊆ labels ∧ (labels.map Prod.fst).Nodup

/-- What a body promises about the depths at its returns and at its end. -/
structure ReturnsClean (code : Code) (e : Nat) : Prop where
  ret : ∀ {place d : Nat}, Reaches code place d → code[place]? = some .ret → d = 0
  retValue : ∀ {place d : Nat}, Reaches code place d → code[place]? = some .retValue → d = 1
  exit : ∀ {d : Nat}, Reaches code code.size d → d = e
  /-- The end is not reached behind an instruction that ends a block. -/
  closed : ∀ {i : Instruction}, code.back? = some i → i.endsBlock = true →
    ∀ d, ¬ Reaches code code.size d

/-- Only falling through the last instruction leads to the end. -/
lemma not_reaches_size {code : Code} {i : Instruction} (hlast : code.back? = some i)
    (hends : i.endsBlock = true) (d : Nat) : ¬ Reaches code code.size d := by
  have hback : code[code.size - 1]? = some i := by rwa [← Array.back?_eq_getElem?]
  have hpos := place_lt_of_getElem? hback
  intro h
  generalize hsize : code.size = place at h
  cases h with
  | start => omega
  | @next place _ j _ hj _ hfalls =>
      have hplace : place = code.size - 1 := by omega
      rw [hplace, hback, Option.some.injEq] at hj
      subst hj
      simp [hends] at hfalls
  | jump _ _ _ _ hlabel =>
      have := place_lt_of_getElem? hlabel
      omega

/-- **Nothing goes wrong with the depths of certified code**, and at its returns and its end they
are what it was certified for. -/
theorem Certified.consistent {code : Code} {e : Nat} (h : Certified code e) :
    Consistent code ∧ ReturnsClean code e := by
  obtain ⟨jumps, labels, hflow, closed, once⟩ := h
  obtain ⟨depth, hstart, hend, hnotes⟩ := hflow.annotates
  have known : ∀ {place d : Nat}, Reaches code place d → d = depth place :=
    hnotes.depth_of_reaches hstart closed once
  have placed : ∀ {place : Nat} {i : Instruction}, code[place]? = some i →
      code.toList[place]? = some i := by
    intro place i hi
    simpa using hi
  constructor
  · refine ⟨by rwa [hflow.definedLabels], fun hd he => (known hd).trans (known he).symm, ?_⟩
    intro place d i hd hi
    refine ⟨(known hd).symm ▸ hnotes.pops (placed hi), fun l hl => ?_⟩
    rw [← mem_definedLabels, hflow.definedLabels]
    exact List.mem_map.2 ⟨_, closed (hnotes.jump (placed hi) hl), rfl⟩
  · refine ⟨?_, ?_, ?_, not_reaches_size⟩
    · intro place d hd hi
      rw [known hd, hnotes.ret (placed hi)]
    · intro place d hd hi
      rw [known hd, hnotes.retValue (placed hi)]
    · intro d hd
      rw [known hd, ← hend, Array.length_toList]

end StackProfile

end StackBackend
