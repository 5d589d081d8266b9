import StackBackend.Proofs.StackProfile.Arrivals

/-!
# The depth analysis decides depth consistency

What the analysis is asked for can be said without it: which depths each place can be reached
with.  `Reaches` is the least relation of places and depths that holds of the first place with an
empty stack and goes along with every instruction that can be carried out.  It mentions neither a
table of labels nor an order of visits.

**Acceptance.**  `Consistent code` says that no label is defined twice, that no place is reached
with two depths, and that every instruction that is reached can be carried out; `Narrow code` that
the depth after every instruction that is reached can be counted.

**The answer.**  `StackProfile.Describes p code` says of a profile that it lists just the depths
that places are reached with, and the greatest depth there is; only one profile does
(`Describes.unique`).

The main result is `analyze_exact`: code is accepted exactly when it is consistent and narrow, the
answer is the profile that describes it, and the bound on the number of visits is never what ends
the exploration.
-/

namespace StackBackend

/-- An instruction finds the operands it needs, and the label it jumps to, if any, is defined. -/
def Instruction.CanRun (code : Code) (i : Instruction) (depth : Nat) : Prop :=
  i.pops ≤ depth ∧ ∀ l, i.target? = some l → .label l ∈ code.toList

namespace StackProfile

/-- **The depths that places are reached with.** -/
inductive Reaches (code : Code) : Nat → Nat → Prop
  | start : Reaches code 0 0
  | next {place depth : Nat} {i : Instruction} : Reaches code place depth →
      code[place]? = some i → i.CanRun code depth → i.endsBlock = false →
      Reaches code (place + 1) (i.depthAfter depth)
  | jump {place depth target : Nat} {i : Instruction} {l : Label} : Reaches code place depth →
      code[place]? = some i → i.CanRun code depth → i.target? = some l →
      code[target]? = some (.label l) → Reaches code target (i.depthAfter depth)

/-- **Nothing goes wrong with the depths of code.** -/
structure Consistent (code : Code) : Prop where
  /-- No label is defined twice. -/
  once : (definedLabels code.toList).Nodup
  /-- No place is reached with two depths. -/
  agree : ∀ {place d e : Nat}, Reaches code place d → Reaches code place e → d = e
  /-- Every instruction that is reached can be carried out. -/
  runs : ∀ {place d : Nat} {i : Instruction}, Reaches code place d → code[place]? = some i →
    i.CanRun code d

/-- The depth after every instruction that is reached can be counted. -/
def Narrow (code : Code) : Prop :=
  ∀ {place d : Nat} {i : Instruction}, Reaches code place d → code[place]? = some i →
    i.depthAfter d ≤ depthLimit

/-- A depth before or after an instruction that is reached. -/
def Touches (code : Code) (d : Nat) : Prop :=
  ∃ place before i, Reaches code place before ∧ code[place]? = some i ∧
    (d = before ∨ d = i.depthAfter before)

/-- **A profile says what depths the places of code are reached with.** -/
structure Describes (p : StackProfile) (code : Code) : Prop where
  length : p.depths.length = code.size
  reached : ∀ {place d : Nat}, place < code.size →
    (p.depths[place]? = some (some d) ↔ Reaches code place d)
  unreached : ∀ {place : Nat}, place < code.size →
    (p.depths[place]? = some none ↔ ∀ d, ¬ Reaches code place d)
  exit : ∀ {d : Nat}, p.exitDepth = some d ↔ Reaches code code.size d
  /-- No depth is beyond the greatest one. -/
  bounded : ∀ {d : Nat}, Touches code d → d ≤ p.maxDepth
  /-- The greatest depth occurs. -/
  attained : 0 < code.size → Touches code p.maxDepth
  empty : code.size = 0 → p.maxDepth = 0

variable {code : Code} {labels : LabelTable} {p p' : StackProfile}

/-! ## Arrivals without a table -/

/-- With the labels located, an instruction proceeds if it can be carried out. -/
lemma proceeds_iff (hl : labelTable code = .ok labels) {i : Instruction} {depth : Nat} :
    Proceeds labels i depth ↔ i.CanRun code depth := by
  have located : ∀ l, (∃ target, labels.lookup l = some target) ↔ .label l ∈ code.toList := by
    intro l
    rw [List.mem_iff_getElem?]
    simp [lookup_labelTable hl]
  simp [Proceeds, Instruction.CanRun, located]

/-- **Arrivals are the depths that places are reached with.** -/
lemma arrives_iff_reaches (hl : labelTable code = .ok labels) {place depth : Nat} :
    Arrives code labels ⟨place, depth⟩ ↔ Reaches code place depth := by
  constructor
  · intro h
    generalize ha : (⟨place, depth⟩ : Arrival) = a at h
    suffices Reaches code a.place a.depth by
      subst ha
      exact this
    clear ha
    induction h with
    | start => exact .start
    | @step a b i _ hi hproceeds hfollows ih =>
        have runs := (proceeds_iff hl).1 hproceeds
        obtain ⟨hdepth, ⟨hends, hplace⟩ | ⟨l, htarget, hplace⟩⟩ := hfollows
        · rw [hdepth, hplace]
          exact .next ih hi runs hends
        · rw [hdepth]
          exact .jump ih hi runs htarget ((lookup_labelTable hl).1 hplace)
  · intro h
    induction h with
    | start => exact .start
    | next _ hi runs hends ih =>
        exact .step ih hi ((proceeds_iff hl).2 runs) ⟨rfl, .inl ⟨hends, rfl⟩⟩
    | jump _ hi runs htarget hlabel ih =>
        exact .step ih hi ((proceeds_iff hl).2 runs)
          ⟨rfl, .inr ⟨_, htarget, (lookup_labelTable hl).2 hlabel⟩⟩

/-! ## The bound on visits -/

/-- **More visits change nothing**, once there are more than places without a depth. -/
lemma Explored.explore_add (hl : labelTable code = .ok labels) {visits : Nat} {q : Progress}
    (hq : Explored code labels q) (enough : unvisited q.depths < visits) (more : Nat) :
    StackProfile.explore code labels (visits + more) q
      = StackProfile.explore code labels visits q := by
  induction visits generalizing q with
  | zero => omega
  | succ visits ih =>
      rw [Nat.add_right_comm, StackProfile.explore, StackProfile.explore]
      cases hnext : nextArrival q.depths q.pending with
      | error e => rfl
      | ok found =>
          cases found with
          | none => rfl
          | some next =>
              obtain ⟨a, rest⟩ := next
              simp only
              cases hvisit : StackProfile.visit code labels q a rest with
              | error e => rfl
              | ok q' =>
                  have fewer := unvisited_visit hl hq hnext hvisit
                  exact ih (hq.visit hl hnext hvisit) (by omega)

/-! ## The greatest depth -/

/-- The greatest depth so far occurs at an arrival, unless there is none yet. -/
def Attains (code : Code) (labels : LabelTable) (q : Progress) : Prop :=
  q.deepest = 0 ∨ ∃ a i, Arrives code labels a ∧ code[a.place]? = some i ∧
    (q.deepest = a.depth ∨ q.deepest = i.depthAfter a.depth)

/-- A visit leaves the greatest depth alone, or makes it one of its own. -/
lemma visit_deepest {q q' : Progress} {a : Arrival} {rest : List Arrival}
    (h : visit code labels q a rest = .ok q') : q'.deepest = q.deepest ∨
      ∃ i, code[a.place]? = some i ∧
        (q'.deepest = a.depth ∨ q'.deepest = i.depthAfter a.depth) := by
  rw [visit] at h
  cases hi : code[a.place]? with
  | none =>
      simp only [hi, Except.ok.injEq] at h
      subst h
      exact .inl rfl
  | some i =>
      simp only [hi] at h
      split at h
      · simp at h
      split at h
      · simp at h
      split at h
      · simp at h
      split at h
      · simp at h
      · simp only [Except.ok.injEq] at h
        subst h
        simp only [Option.some.injEq, exists_eq_left', Instruction.depthAfter]
        omega

lemma Attains.visit {q q' : Progress} (hattains : Attains code labels q)
    (hq : Explored code labels q) {a : Arrival} {rest : List Arrival}
    (hnext : nextArrival q.depths q.pending = .ok (some (a, rest)))
    (h : StackProfile.visit code labels q a rest = .ok q') : Attains code labels q' := by
  obtain ⟨-, hpending, -, -⟩ := nextArrival_some hnext
  rcases visit_deepest h with hsame | ⟨i, hi, hdeepest⟩
  · simpa only [Attains, hsame] using hattains
  · exact .inr ⟨a, i, hq.arrives (.inl hpending), hi, hdeepest⟩

lemma Attains.explore (hl : labelTable code = .ok labels) {visits : Nat} {q q' : Progress}
    (hattains : Attains code labels q) (hq : Explored code labels q)
    (h : StackProfile.explore code labels visits q = .ok q') : Attains code labels q' := by
  induction visits generalizing q with
  | zero =>
      obtain rfl : q = q' := by simpa [StackProfile.explore] using h
      exact hattains
  | succ visits ih =>
      rw [StackProfile.explore] at h
      split at h
      · simp at h
      · obtain rfl : q = q' := by simpa using h
        exact hattains
      · next a rest hnext =>
          split at h
          · simp at h
          · next next hvisit =>
              exact ih (hattains.visit hq hnext hvisit) (hq.visit hl hnext hvisit) h

/-- The greatest depth of accepted code occurs at an arrival, unless it is zero. -/
lemma attained_of_analyze (h : analyze code = .ok p) (hl : labelTable code = .ok labels) :
    p.maxDepth = 0 ∨ ∃ a i, Arrives code labels a ∧ code[a.place]? = some i ∧
      (p.maxDepth = a.depth ∨ p.maxDepth = i.depthAfter a.depth) := by
  rw [analyze, hl] at h
  simp only at h
  split at h
  · simp at h
  · next q hq =>
      simp only [Except.ok.injEq] at h
      have started : Attains code labels (start code) := .inl rfl
      have attained := started.explore hl (explored_start code labels) hq
      rw [← h]
      exact attained

/-! ## Profiles -/

lemma depthAt_size (h : analyze code = .ok p) : p.depthAt code.size = p.exitDepth := by
  obtain ⟨-, -, -, -, -, hlength, -, -⟩ := analyze_ok h
  rw [depthAt, ← hlength]
  simp

lemma depths_eq_depthAt {place : Nat} (hplace : place < p.depths.length) :
    p.depths[place]? = some (p.depthAt place) := by
  rw [depthAt, List.getElem?_append_left hplace, List.getElem?_eq_getElem hplace, Option.join_some]

/-- The profile of accepted code describes it. -/
lemma describes_of_analyze (h : analyze code = .ok p) : p.Describes code := by
  obtain ⟨labels, -, hl, -, -, hlength, -, -⟩ := analyze_ok h
  have depth_iff : ∀ {place d : Nat}, p.depthAt place = some d ↔ Reaches code place d := by
    intro place d
    rw [depthAt_iff_arrives h hl, arrives_iff_reaches hl]
  have listed : ∀ {place : Nat}, place < code.size → p.depths[place]? = some (p.depthAt place) := by
    intro place hplace
    exact depths_eq_depthAt (by omega)
  have touched : ∀ {place before d : Nat} {i : Instruction}, Arrives code labels ⟨place, before⟩ →
      code[place]? = some i → (d = before ∨ d = i.depthAfter before) → Touches code d := by
    intro place before d i ha hi hd
    exact ⟨place, before, i, (arrives_iff_reaches hl).1 ha, hi, hd⟩
  refine ⟨hlength, ?_, ?_, ?_, ?_, ?_, ?_⟩
  · intro place d hplace
    rw [listed hplace, Option.some.injEq, depth_iff]
  · intro place hplace
    rw [listed hplace, Option.some.injEq, Option.eq_none_iff_forall_ne_some]
    simp only [ne_eq, depth_iff]
  · intro d
    rw [← depthAt_size h, depth_iff]
  · intro d hd
    obtain ⟨place, before, i, hreaches, hi, hd⟩ := hd
    obtain ⟨-, hbefore, hafter, -⟩ :=
      bounded_of_arrives h hl ((arrives_iff_reaches hl).2 hreaches) hi
    rcases hd with rfl | rfl
    · exact hbefore
    · exact hafter
  · intro hpos
    rcases attained_of_analyze h hl with hzero | ⟨a, i, ha, hi, hd⟩
    · -- the first instruction is reached with an empty stack
      exact touched .start (Array.getElem?_eq_getElem hpos) (.inl hzero)
    · exact touched ha hi hd
  · intro hempty
    rcases attained_of_analyze h hl with hzero | ⟨a, i, -, hi, -⟩
    · exact hzero
    · have := place_lt_of_getElem? hi
      omega

/-- **Only one profile describes a sequence.** -/
lemma Describes.unique (h : p.Describes code) (h' : p'.Describes code) : p = p' := by
  have depths : p.depths = p'.depths := by
    refine List.ext_getElem? fun place => ?_
    by_cases hplace : place < code.size
    · have there : place < p.depths.length := by rw [h.length]; exact hplace
      rw [List.getElem?_eq_getElem there]
      symm
      cases hd : p.depths[place] with
      | none =>
          rw [h'.unreached hplace, ← h.unreached hplace, List.getElem?_eq_getElem there, hd]
      | some d =>
          rw [h'.reached hplace, ← h.reached hplace, List.getElem?_eq_getElem there, hd]
    · have beyond : p.depths.length ≤ place := by rw [h.length]; omega
      have beyond' : p'.depths.length ≤ place := by rw [h'.length]; omega
      rw [List.getElem?_eq_none beyond, List.getElem?_eq_none beyond']
  have exits : p.exitDepth = p'.exitDepth := by
    ext d
    rw [h.exit, h'.exit]
  have deepest : p.maxDepth = p'.maxDepth := by
    by_cases hempty : code.size = 0
    · rw [h.empty hempty, h'.empty hempty]
    · have hpos : 0 < code.size := by omega
      exact Nat.le_antisymm (h'.bounded (h.attained hpos)) (h.bounded (h'.attained hpos))
  cases p
  cases p'
  simp_all

/-! ## The analysis -/

/-- Accepted code is consistent. -/
lemma consistent_of_analyze (h : analyze code = .ok p) : Consistent code := by
  obtain ⟨labels, -, hl, -, -, -, -, -⟩ := analyze_ok h
  refine ⟨nodup_of_labelTable hl, ?_, ?_⟩
  · intro place d e hd he
    rw [← arrives_iff_reaches hl, ← depthAt_iff_arrives h hl] at hd he
    rw [hd] at he
    exact Option.some.inj he
  · intro place d i hd hi
    have arrives := (arrives_iff_reaches hl).2 hd
    exact (proceeds_iff hl).1 (bounded_of_arrives h hl arrives hi).1

/-- The depths of accepted code can be counted. -/
lemma narrow_of_analyze (h : analyze code = .ok p) : Narrow code := by
  obtain ⟨labels, -, hl, -, -, -, -, -⟩ := analyze_ok h
  intro place d i hd hi
  exact (bounded_of_arrives h hl ((arrives_iff_reaches hl).2 hd) hi).2.2.2

/-- Consistent code is accepted, if its depths can be counted. -/
lemma Consistent.analyze (h : Consistent code) (hnarrow : Narrow code) :
    ∃ p, StackProfile.analyze code = .ok p := by
  obtain ⟨labels, hl⟩ := labelTable_of_nodup h.once
  refine analyze_of_sound hl ?_ ?_ ?_
  · rintro ⟨place, d⟩ ⟨_, e⟩ ha hb rfl
    exact h.agree ((arrives_iff_reaches hl).1 ha) ((arrives_iff_reaches hl).1 hb)
  · rintro ⟨place, d⟩ i ha hi
    exact (proceeds_iff hl).2 (h.runs ((arrives_iff_reaches hl).1 ha) hi)
  · rintro ⟨place, d⟩ i ha hi
    exact hnarrow ((arrives_iff_reaches hl).1 ha) hi

/-- **The analysis decides depth consistency.**  It accepts just the code in which no label is
defined twice, no place is reached with two depths and no instruction that is reached lacks operands
or its label, as long as the depths can be counted.  Its answer is then the one profile that lists
the depths places are reached with, and the greatest depth before or after an instruction that is
reached.  The exploration comes to an end by itself: with more visits allowed it would give the
same. -/
theorem analyze_exact (code : Code) :
    ((∃ p, analyze code = .ok p) ↔ Consistent code ∧ Narrow code) ∧
      (∀ p, analyze code = .ok p ↔ Consistent code ∧ Narrow code ∧ p.Describes code) ∧
      ∀ labels more, labelTable code = .ok labels →
        explore code labels (code.size + 2 + more) (start code)
          = explore code labels (code.size + 2) (start code) := by
  have accepted : (∃ p, analyze code = .ok p) ↔ Consistent code ∧ Narrow code := by
    constructor
    · rintro ⟨p, hp⟩
      exact ⟨consistent_of_analyze hp, narrow_of_analyze hp⟩
    · rintro ⟨hconsistent, hnarrow⟩
      exact hconsistent.analyze hnarrow
  refine ⟨accepted, ?_, ?_⟩
  · intro p
    constructor
    · intro hp
      exact ⟨consistent_of_analyze hp, narrow_of_analyze hp, describes_of_analyze hp⟩
    · rintro ⟨hconsistent, hnarrow, hdescribes⟩
      obtain ⟨p', hp'⟩ := hconsistent.analyze hnarrow
      rw [hp', hdescribes.unique (describes_of_analyze hp')]
  · intro labels more hl
    have enough : unvisited (start code).depths < code.size + 2 := by simp [unvisited, start]
    exact (explored_start code labels).explore_add hl enough more

/-- A loop that pushes in every round reaches its start with every depth. -/
example : analyze #[.label ⟨0⟩, .ldc (.int 1), .jump ⟨0⟩] = .error (.mismatch 0 0 1) := rfl

/-- Places behind a jump are not reached, so what stands there does not matter. -/
example : analyze #[.zero, .jump ⟨0⟩, .pop, .pop, .label ⟨0⟩]
    = .ok ⟨[some 0, some 1, none, none, some 1], some 1, 1⟩ := rfl

end StackProfile

end StackBackend
