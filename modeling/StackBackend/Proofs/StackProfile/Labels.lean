import StackBackend.Assembly.StackProfile
import Mathlib.Tactic.Lemma

/-!
# The labels of a method body

A jump names its target by a label, and `labelTable` locates labels.  `lookup_labelTable` says that
a table locates exactly the label definitions of the code, and `labelTable_of_nodup` and
`nodup_of_labelTable` that a table exists exactly when no label is defined twice.  All go through
`labelTableFrom`, the recursion that extends a table while it reads the code.
-/

namespace StackBackend

/-- The label an instruction defines. -/
def Instruction.defines? : Instruction → Option Label
  | label l => some l
  | _ => none

/-- The labels a sequence defines, in order. -/
def definedLabels (code : List Instruction) : List Label :=
  code.filterMap Instruction.defines?

@[simp] lemma definedLabels_nil : definedLabels [] = [] := rfl

@[simp] lemma definedLabels_append (xs ys : List Instruction) :
    definedLabels (xs ++ ys) = definedLabels xs ++ definedLabels ys :=
  List.filterMap_append

lemma definedLabels_cons (i : Instruction) (rest : List Instruction) :
    definedLabels (i :: rest) = i.defines?.toList ++ definedLabels rest := by
  cases h : i.defines? <;> simp [definedLabels, h]

lemma eq_label_of_defines? {i : Instruction} {l : Label} (h : i.defines? = some l) :
    i = .label l := by
  cases i with
  | label m =>
      obtain rfl : m = l := by simpa [Instruction.defines?] using h
      rfl
  | _ => simp [Instruction.defines?] at h

lemma mem_definedLabels {code : List Instruction} {l : Label} :
    l ∈ definedLabels code ↔ .label l ∈ code := by
  constructor
  · intro h
    obtain ⟨i, hi, hl⟩ := List.mem_filterMap.1 h
    exact eq_label_of_defines? hl ▸ hi
  · exact fun h => List.mem_filterMap.2 ⟨_, h, rfl⟩

/-- An instruction that defines no label leaves the table alone. -/
lemma labelTableFrom_cons_of_none {i : Instruction} (h : i.defines? = none) (place : Nat)
    (table : LabelTable) (rest : List Instruction) :
    labelTableFrom place table (i :: rest) = labelTableFrom (place + 1) table rest := by
  cases i with
  | label l => simp [Instruction.defines?] at h
  | _ => simp [labelTableFrom]

/-- A label definition is entered, unless the label is in the table already. -/
lemma labelTableFrom_label_ok {l : Label} {place : Nat} {table t : LabelTable}
    {rest : List Instruction} (h : labelTableFrom place table (.label l :: rest) = .ok t) :
    table.lookup l = none ∧ labelTableFrom (place + 1) ((l, place) :: table) rest = .ok t := by
  rw [labelTableFrom] at h
  cases hl : table.lookup l with
  | some q => simp [hl] at h
  | none => exact ⟨rfl, by simpa [hl] using h⟩

lemma lookup_cons_label (l m : Label) (place : Nat) (table : LabelTable) :
    ((m, place) :: table).lookup l = if l = m then some place else table.lookup l := by
  by_cases same : l = m
  · simp [same]
  · simp [List.lookup_cons, beq_eq_false_iff_ne.2 same, same]

/-- What a table located before it was extended is located there still. -/
lemma lookup_labelTableFrom_of_lookup {code : List Instruction} {place : Nat}
    {table t : LabelTable} (h : labelTableFrom place table code = .ok t) {l : Label} {q : Nat}
    (hl : table.lookup l = some q) : t.lookup l = some q := by
  induction code generalizing place table with
  | nil =>
      obtain rfl : table = t := by simpa [labelTableFrom] using h
      exact hl
  | cons i rest ih =>
      cases hi : i.defines? with
      | none => exact ih (by rwa [labelTableFrom_cons_of_none hi] at h) hl
      | some m =>
          obtain rfl := eq_label_of_defines? hi
          obtain ⟨hm, h⟩ := labelTableFrom_label_ok h
          have hne : l ≠ m := by rintro rfl; simp [hm] at hl
          exact ih h (by rw [lookup_cons_label, if_neg hne]; exact hl)

/-- A label defined in the code is located at its definition. -/
lemma lookup_labelTableFrom_of_getElem? {code : List Instruction} {place : Nat}
    {table t : LabelTable} (h : labelTableFrom place table code = .ok t) {l : Label} {j : Nat}
    (hj : code[j]? = some (.label l)) : t.lookup l = some (place + j) := by
  induction code generalizing place table j with
  | nil => simp at hj
  | cons i rest ih =>
      cases j with
      | zero =>
          obtain rfl : i = .label l := by simpa using hj
          obtain ⟨-, h⟩ := labelTableFrom_label_ok h
          exact lookup_labelTableFrom_of_lookup h (by simp)
      | succ j =>
          have hj' : rest[j]? = some (.label l) := by simpa using hj
          have goal : ∀ table', labelTableFrom (place + 1) table' rest = .ok t →
              t.lookup l = some (place + (j + 1)) := by
            intro table' h'
            rw [ih h' hj']
            congr 1
            omega
          cases hi : i.defines? with
          | none => exact goal table (by rwa [labelTableFrom_cons_of_none hi] at h)
          | some m =>
              obtain rfl := eq_label_of_defines? hi
              exact goal _ (labelTableFrom_label_ok h).2

/-- Whatever a table locates was located before or is defined in the code. -/
lemma getElem?_of_lookup_labelTableFrom {code : List Instruction} {place : Nat}
    {table t : LabelTable} (h : labelTableFrom place table code = .ok t) {l : Label} {q : Nat}
    (hl : t.lookup l = some q) :
    table.lookup l = some q ∨ ∃ j, q = place + j ∧ code[j]? = some (.label l) := by
  induction code generalizing place table with
  | nil =>
      obtain rfl : table = t := by simpa [labelTableFrom] using h
      exact .inl hl
  | cons i rest ih =>
      -- a definition found in the rest of the code is one place further in the whole of it
      have shift : (∃ j, q = place + 1 + j ∧ rest[j]? = some (.label l)) →
          ∃ j, q = place + j ∧ (i :: rest)[j]? = some (.label l) := by
        rintro ⟨j, rfl, hj⟩
        exact ⟨j + 1, by omega, by simpa using hj⟩
      cases hi : i.defines? with
      | none =>
          rw [labelTableFrom_cons_of_none hi] at h
          exact (ih h).imp id shift
      | some m =>
          obtain rfl := eq_label_of_defines? hi
          obtain ⟨-, h⟩ := labelTableFrom_label_ok h
          rcases ih h with hq | hq
          · rw [lookup_cons_label] at hq
            split at hq
            · next same =>
                subst same
                exact .inr ⟨0, by simpa using hq.symm, by simp⟩
            · exact .inl hq
          · exact .inr (shift hq)

/-- **A table locates exactly the label definitions of the code.** -/
theorem lookup_labelTable {code : Code} {labels : LabelTable} (h : labelTable code = .ok labels)
    {l : Label} {q : Nat} : labels.lookup l = some q ↔ code[q]? = some (.label l) := by
  constructor
  · intro hl
    rcases getElem?_of_lookup_labelTableFrom h hl with hq | ⟨j, rfl, hj⟩
    · simp at hq
    · simpa using hj
  · intro hq
    have := lookup_labelTableFrom_of_getElem? h (l := l) (j := q) (by simpa using hq)
    simpa using this

lemma labelTableFrom_of_nodup {code : List Instruction} {place : Nat} {table : LabelTable}
    (h : (definedLabels code).Nodup) (fresh : ∀ l ∈ definedLabels code, table.lookup l = none) :
    ∃ t, labelTableFrom place table code = .ok t := by
  induction code generalizing place table with
  | nil => exact ⟨table, rfl⟩
  | cons i rest ih =>
      rw [definedLabels_cons] at h fresh
      cases hi : i.defines? with
      | none =>
          rw [labelTableFrom_cons_of_none hi]
          rw [hi] at h fresh
          exact ih (by simpa using h) (by simpa using fresh)
      | some m =>
          obtain rfl := eq_label_of_defines? hi
          simp only [Instruction.defines?, Option.toList_some, List.cons_append,
            List.nil_append, List.nodup_cons] at h
          have hm : table.lookup m = none := fresh m (by simp [Instruction.defines?])
          rw [labelTableFrom, hm]
          refine ih h.2 fun l hl => ?_
          have hne : l ≠ m := by rintro rfl; exact h.1 hl
          rw [lookup_cons_label, if_neg hne]
          exact fresh l (by simp [hl])

/-- Code that defines no label twice has a table. -/
theorem labelTable_of_nodup {code : Code} (h : (definedLabels code.toList).Nodup) :
    ∃ labels, labelTable code = .ok labels :=
  labelTableFrom_of_nodup h (by simp)

lemma nodup_of_labelTableFrom {code : List Instruction} {place : Nat} {table t : LabelTable}
    (h : labelTableFrom place table code = .ok t) :
    (definedLabels code).Nodup ∧ ∀ l ∈ definedLabels code, table.lookup l = none := by
  induction code generalizing place table with
  | nil => simp
  | cons i rest ih =>
      rw [definedLabels_cons]
      cases hi : i.defines? with
      | none =>
          rw [labelTableFrom_cons_of_none hi] at h
          simpa using ih h
      | some m =>
          obtain rfl := eq_label_of_defines? hi
          obtain ⟨hm, h⟩ := labelTableFrom_label_ok h
          obtain ⟨hnodup, hfresh⟩ := ih h
          -- the table that the rest is read with holds `m`, so the rest does not define it
          have fresh : ∀ l ∈ definedLabels rest, l ≠ m ∧ table.lookup l = none := by
            intro l hl
            have := hfresh l hl
            rw [lookup_cons_label] at this
            split at this
            · simp at this
            · next hne => exact ⟨hne, this⟩
          have absent : m ∉ definedLabels rest := fun hmem => (fresh m hmem).1 rfl
          simp only [Option.toList_some, List.cons_append, List.nil_append, List.nodup_cons,
            List.mem_cons, forall_eq_or_imp]
          exact ⟨⟨absent, hnodup⟩, hm, fun l hl => (fresh l hl).2⟩

/-- Only code that defines no label twice has a table. -/
theorem nodup_of_labelTable {code : Code} {labels : LabelTable}
    (h : labelTable code = .ok labels) : (definedLabels code.toList).Nodup :=
  (nodup_of_labelTableFrom h).1

end StackBackend
