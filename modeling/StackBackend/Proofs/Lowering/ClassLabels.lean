import StackBackend.Proofs.Lowering.MethodDepths
import Mathlib.Data.List.Perm.Basic

/-!
# The labels of an assembled class

Labels are handed out once for the whole class, and every label that is handed out is placed.  So
the definitions in all methods together are the labels from zero up to the number handed out, each
once, and no method jumps into another.

* `Balanced.perm_labels` — balanced code defines the labels of its range;
* `Balanced.mem_of_target` — outside of loops it jumps to its own labels only;
* `assemble_labels` — both for the methods of a class, whose ranges adjoin.
-/

namespace StackBackend.Lowering

open StackProfile Instruction

/-! ## Pieces of code -/

/-- The labels from `a` up to `b`, in order. -/
def labelsFrom (a b : Nat) : List Label := (List.range' a (b - a)).map Label.mk

lemma labelsFrom_append {a b c : Nat} (hab : a ≤ b) (hbc : b ≤ c) :
    labelsFrom a b ++ labelsFrom b c = labelsFrom a c := by
  have middle : b = a + 1 * (b - a) := by omega
  have whole : c - a = (b - a) + (c - b) := by omega
  rw [labelsFrom, labelsFrom, labelsFrom, whole, ← List.range'_append, ← middle, List.map_append]

lemma mem_labelsFrom {a b n : Nat} : ⟨n⟩ ∈ labelsFrom a b ↔ a ≤ n ∧ n < b := by
  simp only [labelsFrom, List.mem_map, List.mem_range'_1, Label.mk.injEq, exists_eq_right]
  omega

lemma nodup_labelsFrom (a b : Nat) : (labelsFrom a b).Nodup :=
  List.Nodup.map (fun _ _ h => Label.mk.inj h) List.nodup_range'

/-- **Balanced code defines the labels of its range**, each once. -/
lemma Balanced.perm_labels {loop : Option LoopLabels} {a b d e : Nat} {code : List Instruction}
    (h : Balanced loop a b d code e) : (definedLabels code).Perm (labelsFrom a b) := by
  obtain ⟨-, jumps, labels, hflow, hranges, -⟩ := h
  rw [hflow.definedLabels]
  refine (List.perm_ext_iff_of_nodup hranges.nodup (nodup_labelsFrom a b)).2 ?_
  rintro ⟨n⟩
  rw [mem_labelsFrom, ← List.count_pos_iff, hranges n]
  split <;> simp_all

/-- A check collects the target of every jump. -/
lemma exists_mem_jumps {d e : Nat} {code : List Instruction} {jumps labels : List LabelDepth}
    (h : Flow d code jumps labels e) {i : Instruction} (hi : i ∈ code) {l : Label}
    (hl : i.target? = some l) : ∃ depth, (l, depth) ∈ jumps := by
  induction h with
  | nil => simp at hi
  | @cons d _ _ j rest _ _ _ _ _ _ _ ih =>
      rcases List.mem_cons.1 hi with rfl | hi
      · exact ⟨i.depthAfter d, by simp [hl]⟩
      · obtain ⟨depth, hdepth⟩ := ih hi
        exact ⟨depth, List.mem_append_right _ hdepth⟩

/-- **Outside of all loops, balanced code jumps to labels of its own.** -/
lemma Balanced.mem_of_target {a b d e : Nat} {code : List Instruction}
    (h : Balanced none a b d code e) {i : Instruction} (hi : i ∈ code) {l : Label}
    (hl : i.target? = some l) : .label l ∈ code := by
  obtain ⟨-, jumps, labels, hflow, -, hjumps⟩ := h
  obtain ⟨depth, hjump⟩ := exists_mem_jumps hflow hi hl
  rcases hjumps _ hjump with hlabel | ⟨_, hloop, -⟩
  · rw [← mem_definedLabels, hflow.definedLabels]
    exact List.mem_map_of_mem hlabel
  · simp at hloop

/-! ## Classes -/

/-- The labels that methods define, method by method. -/
def methodLabels (methods : List Method) : List Label :=
  methods.flatMap fun m => definedLabels m.code.toList

lemma FunctionCode.balanced {config : Config} {p : CheckedProgram} {shared shared' : Shared}
    {name : String} {m : Method} (h : FunctionCode config p shared name m shared') :
    Balanced none shared.labels.issued shared'.labels.issued 0 m.code.toList 0 := by
  cases h with
  | mk _ _ _ _ hbody => exact hbody.balanced

/-- The functions of a class take their labels from adjoining ranges. -/
lemma FunctionsCode.perm_labels {config : Config} {p : CheckedProgram} {shared shared' : Shared}
    {names : List String} {methods : List Method}
    (h : FunctionsCode config p shared names methods shared') :
    shared.labels.issued ≤ shared'.labels.issued ∧
      (methodLabels methods).Perm (labelsFrom shared.labels.issued shared'.labels.issued) := by
  induction h with
  | nil => simp [methodLabels, labelsFrom]
  | @cons shared middle shared' _ _ m methods hfirst _ ih =>
      obtain ⟨hle, hrest⟩ := ih
      have hfirst := hfirst.balanced
      refine ⟨Nat.le_trans hfirst.1 hle, ?_⟩
      rw [← labelsFrom_append hfirst.1 hle]
      exact hfirst.perm_labels.append hrest

lemma FunctionsCode.exists_balanced {config : Config} {p : CheckedProgram} {shared shared' : Shared}
    {names : List String} {methods : List Method}
    (h : FunctionsCode config p shared names methods shared') {m : Method} (hm : m ∈ methods) :
    ∃ a b, Balanced none a b 0 m.code.toList 0 := by
  induction h with
  | nil => simp at hm
  | cons hfirst _ ih =>
      rcases List.mem_cons.1 hm with rfl | hm
      · exact ⟨_, _, hfirst.balanced⟩
      · exact ih hm

/-- Every method of an assembled class is balanced, by labels of its own. -/
lemma exists_balanced_of_mem {p : CheckedProgram} {config : Config} {c : ClassFile} {issued : Nat}
    (h : assemble p config = .ok (c, issued)) {m : Method} (hm : m ∈ c.methods) :
    ∃ a b, Balanced none a b 0 m.code.toList 0 := by
  obtain ⟨-, functions, shared, code, hfunctions, hbody, rfl⟩ := assemble_ok_iff.1 h
  simp only [List.mem_cons, List.mem_append, List.not_mem_nil, or_false] at hm
  rcases hm with rfl | hm | rfl
  · exact ⟨0, 0, balanced_entryPoint config 0⟩
  · exact hfunctions.exists_balanced hm
  · exact ⟨_, _, hbody.balanced_entryMethod config⟩

/-- **The labels of an assembled class** are those from zero up to the number handed out, each
defined once in all of the class, and a jump stays in its method. -/
theorem assemble_labels {p : CheckedProgram} {config : Config} {c : ClassFile} {issued : Nat}
    (h : assemble p config = .ok (c, issued)) :
    (c.methods.flatMap fun m => definedLabels m.code.toList).Perm
        ((List.range issued).map Label.mk) ∧
      ∀ m ∈ c.methods, ∀ i ∈ m.code, ∀ l, i.target? = some l → .label l ∈ m.code := by
  refine ⟨?_, fun m hm i hi l hl => ?_⟩
  · obtain ⟨-, functions, shared, code, hfunctions, hbody, rfl⟩ := assemble_ok_iff.1 h
    have hentry := hbody.balanced_entryMethod config
    obtain ⟨-, hmethods⟩ := hfunctions.perm_labels
    have whole := hmethods.append hentry.perm_labels
    rw [labelsFrom_append (Nat.zero_le _) hentry.1] at whole
    have start : definedLabels (entryPoint config).code.toList = [] := rfl
    simpa [methodLabels, labelsFrom, List.range_eq_range', start] using whole
  · obtain ⟨a, b, hbalanced⟩ := exists_balanced_of_mem h hm
    simpa using hbalanced.mem_of_target (by simpa using hi) hl

theorem assemble_loopingProgram_labels :
    ∃ c issued, assemble loopingProgram {} = .ok (c, issued) ∧ issued = 6 ∧
      (c.methods.flatMap fun m => definedLabels m.code.toList).Perm
          ((List.range issued).map Label.mk) ∧
        ∀ m ∈ c.methods, ∀ i ∈ m.code, ∀ l, i.target? = some l → .label l ∈ m.code := by
  have counted : (assemble loopingProgram {}).toOption.map Prod.snd = some 6 := by decide +kernel
  cases h : assemble loopingProgram {} with
  | error e => simp [h, Except.toOption] at counted
  | ok r =>
      rw [h] at counted
      exact ⟨r.1, r.2, rfl, by simpa [Except.toOption] using counted, assemble_labels h⟩

end StackBackend.Lowering
