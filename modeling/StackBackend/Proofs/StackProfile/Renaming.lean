import StackBackend.Assembly.ClassFile
import StackBackend.Proofs.StackProfile.Labels
import Mathlib.Logic.Function.Basic

/-!
# Renaming labels

Labels only say where jumps go.  `rename` gives every label of an instruction, a body or a method
another number, and as long as no two labels get the same number, the places that labels stand for
are the same as before (`labelTable_rename`, `lookup_rename`).
-/

namespace StackBackend

/-! ## Instructions -/

/-- A label under another number. -/
def Label.rename (f : Nat → Nat) (l : Label) : Label := ⟨f l.id⟩

lemma Label.rename_injective {f : Nat → Nat} (hf : Function.Injective f) :
    Function.Injective (Label.rename f) := by
  intro l m h
  cases l
  cases m
  simp only [Label.rename, Label.mk.injEq] at h
  rw [hf h]

namespace Instruction

/-- An instruction with its labels renamed. -/
def rename (f : Nat → Nat) : Instruction → Instruction
  | jump target => jump (target.rename f)
  | ifZero target => ifZero (target.rename f)
  | ifNonzero target => ifNonzero (target.rename f)
  | ifInt cond target => ifInt cond (target.rename f)
  | ifRef same target => ifRef same (target.rename f)
  | label l => label (l.rename f)
  | other => other

lemma rename_rename (f g : Nat → Nat) (i : Instruction) :
    (i.rename f).rename g = i.rename (g ∘ f) := by
  cases i <;> rfl

lemma rename_id (i : Instruction) : i.rename id = i := by
  cases i <;> rfl

@[simp] lemma defines?_rename (f : Nat → Nat) (i : Instruction) :
    (i.rename f).defines? = i.defines?.map (Label.rename f) := by
  cases i <;> rfl

@[simp] lemma isReturn_rename (f : Nat → Nat) (i : Instruction) :
    (i.rename f).isReturn = i.isReturn := by
  cases i <;> rfl

end Instruction

/-! ## Bodies -/

/-- A body with its labels renamed. -/
def Code.rename (f : Nat → Nat) (code : Code) : Code := code.map (Instruction.rename f)

/-- A table with its labels renamed. -/
def LabelTable.rename (f : Nat → Nat) (table : LabelTable) : LabelTable :=
  table.map fun entry => (entry.1.rename f, entry.2)

lemma Code.rename_rename (f g : Nat → Nat) (code : Code) :
    (code.rename f).rename g = code.rename (g ∘ f) := by
  simp [Code.rename, Function.comp_def, Instruction.rename_rename]

lemma Code.rename_id (code : Code) : code.rename id = code := by
  have same : Instruction.rename id = id := funext Instruction.rename_id
  rw [Code.rename, same, Array.map_id]

lemma LabelTable.rename_id (table : LabelTable) : table.rename id = table := List.map_id table

variable {f : Nat → Nat}

/-- **A renamed label is where the label was.** -/
lemma LabelTable.lookup_rename (hf : Function.Injective f) (table : LabelTable) (l : Label) :
    (table.rename f).lookup (l.rename f) = table.lookup l := by
  induction table with
  | nil => rfl
  | cons entry rest ih =>
      obtain ⟨m, place⟩ := entry
      change ((m.rename f, place) :: LabelTable.rename f rest).lookup (l.rename f) = _
      rw [lookup_cons_label, lookup_cons_label, ih]
      simp only [(Label.rename_injective hf).eq_iff]

lemma labelTableFrom_rename (hf : Function.Injective f) {code : List Instruction} {place : Nat}
    {table t : LabelTable} (h : labelTableFrom place table code = .ok t) :
    labelTableFrom place (table.rename f) (code.map (Instruction.rename f)) = .ok (t.rename f) := by
  induction code generalizing place table with
  | nil =>
      obtain rfl : table = t := by simpa [labelTableFrom] using h
      rfl
  | cons i rest ih =>
      rw [List.map_cons]
      cases hi : i.defines? with
      | none =>
          have hi' : (i.rename f).defines? = none := by simp [hi]
          rw [labelTableFrom_cons_of_none hi] at h
          rw [labelTableFrom_cons_of_none hi', ih h]
      | some l =>
          obtain rfl := eq_label_of_defines? hi
          obtain ⟨hnew, h⟩ := labelTableFrom_label_ok h
          have hnew' : (table.rename f).lookup (l.rename f) = none := by
            rw [LabelTable.lookup_rename hf, hnew]
          have later := ih h
          rw [Instruction.rename, labelTableFrom, hnew']
          exact later

/-- **The labels of renamed code are located where they were.** -/
lemma labelTable_rename (hf : Function.Injective f) {code : Code} {labels : LabelTable}
    (h : labelTable code = .ok labels) : labelTable (code.rename f) = .ok (labels.rename f) := by
  rw [labelTable, Code.rename, Array.toList_map]
  exact labelTableFrom_rename hf h

/-! ## Methods -/

/-- A method with its labels renamed. -/
def Method.rename (f : Nat → Nat) (m : Method) : Method := { m with code := m.code.rename f }

lemma Method.rename_rename (f g : Nat → Nat) (m : Method) :
    (m.rename f).rename g = m.rename (g ∘ f) := by
  simp [Method.rename, Code.rename_rename]

lemma Method.rename_id (m : Method) : m.rename id = m := by
  rw [Method.rename, Code.rename_id]

/-- Code in which every label is defined once and jumps go to labels it defines. -/
structure Code.Closed (code : Code) : Prop where
  located : ∃ labels, labelTable code = .ok labels
  targets : ∀ i ∈ code, ∀ l, i.target? = some l → .label l ∈ code

end StackBackend
