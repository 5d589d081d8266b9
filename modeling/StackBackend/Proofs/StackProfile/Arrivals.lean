import StackBackend.Proofs.StackProfile.Labels

/-!
# What the depth analysis computes

`StackProfile.analyze` explores a method body with a list of places still to be looked at.  This
file says what the exploration finds out, without mentioning the order in which it looks.

**Arrivals.**  `Arrives` is the least set of places and depths that control can reach, taken
instruction by instruction.  `Explored` is the invariant of the exploration: what is recorded or
waiting is an arrival, and whatever a recorded place leads to is recorded or waiting.  A visit
keeps it (`Explored.visit`) and uses up one unvisited place (`unvisited_visit`), which is why the
number of places bounds the number of visits.

**The two directions.**  `depthAt_iff_arrives` reads the profile of accepted code as the set of
arrivals, and `bounded_of_arrives` says what acceptance promises about each of them.
`analyze_of_sound` is the converse: code on whose arrivals nothing goes wrong, and whose depths can
be counted, is accepted.
-/

namespace StackBackend

/-- The depth an instruction leaves when it finds `depth` operands. -/
def Instruction.depthAfter (i : Instruction) (depth : Nat) : Nat := depth - i.pops + i.pushes

namespace StackProfile

/-! ## Arrivals -/

/-- An instruction finds the operands it needs, and the label it jumps to, if any, is located. -/
def Proceeds (labels : LabelTable) (i : Instruction) (depth : Nat) : Prop :=
  i.pops ≤ depth ∧ ∀ l, i.target? = some l → ∃ target, labels.lookup l = some target

/-- `b` is where control can go from `a` by the instruction there: to the next place, or to the
place of the label it jumps to. -/
def Follows (labels : LabelTable) (i : Instruction) (a b : Arrival) : Prop :=
  b.depth = i.depthAfter a.depth ∧
    ((i.endsBlock = false ∧ b.place = a.place + 1) ∨
      ∃ l, i.target? = some l ∧ labels.lookup l = some b.place)

/-- **The arrivals of a method body**: the first place with an empty stack, and whatever an
instruction leads to from an arrival. -/
inductive Arrives (code : Code) (labels : LabelTable) : Arrival → Prop
  | start : Arrives code labels ⟨0, 0⟩
  | step {a b : Arrival} {i : Instruction} : Arrives code labels a → code[a.place]? = some i →
      Proceeds labels i a.depth → Follows labels i a b → Arrives code labels b

lemma place_lt_of_getElem? {code : Code} {place : Nat} {i : Instruction}
    (h : code[place]? = some i) : place < code.size :=
  (Array.getElem?_eq_some_iff.1 h).1

/-- Control stays within the code, the place behind its last instruction included. -/
lemma Arrives.place_le {code : Code} {labels : LabelTable} (hl : labelTable code = .ok labels)
    {a : Arrival} (h : Arrives code labels a) : a.place ≤ code.size := by
  induction h with
  | start => exact Nat.zero_le _
  | step _ hi _ hb _ =>
      obtain ⟨-, ⟨-, hp⟩ | ⟨l, -, hp⟩⟩ := hb
      · have := place_lt_of_getElem? hi
        omega
      · exact Nat.le_of_lt (place_lt_of_getElem? ((lookup_labelTable hl).1 hp))

/-! ## One visit -/

/-- The successors the exploration notes down are those that follow. -/
lemma successors_ok {labels : LabelTable} {i : Instruction} {a : Arrival} {next : List Arrival}
    (h : successors labels i a.place (i.depthAfter a.depth) = .ok next) :
    (∀ l, i.target? = some l → ∃ target, labels.lookup l = some target) ∧
      ∀ b, b ∈ next ↔ Follows labels i a b := by
  rw [successors] at h
  cases ht : i.target? with
  | none =>
      simp only [ht, Except.ok.injEq] at h
      subst h
      refine ⟨by simp, fun ⟨place, depth⟩ => ?_⟩
      cases hb : i.endsBlock <;> simp [Follows, ht, hb, and_comm]
  | some l =>
      cases hl : labels.lookup l with
      | none => simp [ht, hl] at h
      | some target =>
          simp only [ht, hl, Except.ok.injEq] at h
          subst h
          refine ⟨by simp [hl], fun ⟨place, depth⟩ => ?_⟩
          cases hb : i.endsBlock <;> simp [Follows, ht, hl, hb] <;> grind

lemma successors_error {labels : LabelTable} {i : Instruction} {place after : Nat} {e : StackError}
    (h : successors labels i place after = .error e) :
    ∃ l, i.target? = some l ∧ labels.lookup l = none := by
  rw [successors] at h
  cases ht : i.target? with
  | none => simp [ht] at h
  | some l =>
      cases hl : labels.lookup l with
      | none => exact ⟨l, rfl, hl⟩
      | some target => simp [ht, hl] at h

/-- The next arrival is at a place without a recorded depth, and no arrival is lost on the way to
it but those that agree with what is recorded. -/
lemma nextArrival_some {depths : Array (Option Nat)} {pending rest : List Arrival} {a : Arrival}
    (h : nextArrival depths pending = .ok (some (a, rest))) :
    (∀ depth, depths[a.place]? ≠ some (some depth)) ∧ a ∈ pending ∧ rest ⊆ pending ∧
      ∀ b ∈ pending, b = a ∨ b ∈ rest ∨ depths[b.place]? = some (some b.depth) := by
  induction pending with
  | nil => simp [nextArrival] at h
  | cons x pending ih =>
      rw [nextArrival] at h
      split at h
      · next seen hseen =>
          split at h
          · next agree =>
              obtain ⟨h1, h2, h3, h4⟩ := ih h
              refine ⟨h1, List.mem_cons_of_mem _ h2, fun b hb => List.mem_cons_of_mem _ (h3 hb), ?_⟩
              intro b hb
              rcases List.mem_cons.1 hb with rfl | hb
              · exact .inr (.inr (agree ▸ hseen))
              · exact h4 b hb
          · exact absurd h (by simp)
      · next unseen =>
          simp only [Except.ok.injEq, Option.some.injEq, Prod.mk.injEq] at h
          obtain ⟨rfl, rfl⟩ := h
          refine ⟨unseen, by simp, fun b hb => List.mem_cons_of_mem _ hb, fun b hb => ?_⟩
          rcases List.mem_cons.1 hb with rfl | hb
          · exact .inl rfl
          · exact .inr (.inl hb)

lemma nextArrival_none {depths : Array (Option Nat)} {pending : List Arrival}
    (h : nextArrival depths pending = .ok none) :
    ∀ b ∈ pending, depths[b.place]? = some (some b.depth) := by
  induction pending with
  | nil => simp
  | cons x pending ih =>
      rw [nextArrival] at h
      split at h
      · next seen hseen =>
          split at h
          · next agree =>
              intro b hb
              rcases List.mem_cons.1 hb with rfl | hb
              · exact agree ▸ hseen
              · exact ih h b hb
          · exact absurd h (by simp)
      · exact absurd h (by simp)

lemma nextArrival_error {depths : Array (Option Nat)} {pending : List Arrival} {e : StackError}
    (h : nextArrival depths pending = .error e) :
    ∃ b ∈ pending, ∃ seen, depths[b.place]? = some (some seen) ∧ seen ≠ b.depth := by
  induction pending with
  | nil => simp [nextArrival] at h
  | cons x pending ih =>
      rw [nextArrival] at h
      split at h
      · next seen hseen =>
          split at h
          · obtain ⟨b, hb, hd⟩ := ih h
            exact ⟨b, List.mem_cons_of_mem _ hb, hd⟩
          · next differ => exact ⟨x, List.mem_cons_self, seen, hseen, differ⟩
      · exact absurd h (by simp)

/-- An arrival the exploration has taken note of. -/
def Progress.Notes (p : Progress) (b : Arrival) : Prop :=
  b ∈ p.pending ∨ p.depths[b.place]? = some (some b.depth)

/-- **The invariant of the exploration.** -/
structure Explored (code : Code) (labels : LabelTable) (p : Progress) : Prop where
  size : p.depths.size = code.size + 1
  started : p.Notes ⟨0, 0⟩
  /-- Nothing is noted but arrivals. -/
  arrives : ∀ {b : Arrival}, p.Notes b → Arrives code labels b
  /-- What a recorded place leads to is noted. -/
  closed : ∀ {a b : Arrival} {i : Instruction}, p.depths[a.place]? = some (some a.depth) →
    code[a.place]? = some i → Follows labels i a b → p.Notes b
  /-- At a recorded place nothing goes wrong, and the greatest depth takes account of it. -/
  bounded : ∀ {a : Arrival} {i : Instruction}, p.depths[a.place]? = some (some a.depth) →
    code[a.place]? = some i → Proceeds labels i a.depth ∧ a.depth ≤ p.deepest ∧
      i.depthAfter a.depth ≤ p.deepest ∧ i.depthAfter a.depth ≤ depthLimit

/-- Places without a recorded depth. -/
def unvisited (depths : Array (Option Nat)) : Nat := depths.toList.count none

lemma explored_start (code : Code) (labels : LabelTable) : Explored code labels (start code) where
  size := by simp [start]
  started := .inl (by simp [start])
  arrives := by
    rintro b (hb | hb)
    · obtain rfl : b = ⟨0, 0⟩ := by simpa [start] using hb
      exact .start
    · simp [start, Array.getElem?_replicate] at hb
  closed := by
    intro a b i ha
    simp [start, Array.getElem?_replicate] at ha
  bounded := by
    intro a i ha
    simp [start, Array.getElem?_replicate] at ha

/-- What a visit does: record the depth, and note what follows. -/
lemma visit_ok {code : Code} {labels : LabelTable} {p p' : Progress} {a : Arrival}
    {rest : List Arrival} (h : visit code labels p a rest = .ok p') :
    p'.depths = p.depths.setIfInBounds a.place (some a.depth) ∧ p.deepest ≤ p'.deepest ∧
      (∀ b, b ∈ p'.pending ↔ b ∈ rest ∨ ∃ i, code[a.place]? = some i ∧ Follows labels i a b) ∧
      ∀ i, code[a.place]? = some i →
        Proceeds labels i a.depth ∧ a.depth ≤ p'.deepest ∧ i.depthAfter a.depth ≤ p'.deepest ∧
          i.depthAfter a.depth ≤ depthLimit := by
  rw [visit] at h
  cases hi : code[a.place]? with
  | none =>
      simp only [hi, Except.ok.injEq] at h
      subst h
      simp
  | some i =>
      simp only [hi] at h
      split at h
      · exact absurd h (by simp)
      split at h
      · exact absurd h (by simp)
      split at h
      · exact absurd h (by simp)
      · next enough narrow =>
          cases hs : successors labels i a.place (a.depth - i.pops + i.pushes) with
          | error e => simp [hs] at h
          | ok next =>
              simp only [hs, Except.ok.injEq] at h
              obtain ⟨hlabels, hnext⟩ := successors_ok (a := a) hs
              subst h
              refine ⟨rfl, Nat.le_max_left _ _, fun b => ?_, fun j hj => ?_⟩
              · simp only [List.mem_append, hnext, Option.some.injEq, exists_eq_left']
                exact or_comm
              · obtain rfl : i = j := by simpa using hj
                refine ⟨⟨Nat.not_lt.1 enough, hlabels⟩, ?_, ?_, Nat.not_lt.1 narrow⟩
                · simp only
                  omega
                · simp only [Instruction.depthAfter]
                  omega

lemma visit_error {code : Code} {labels : LabelTable} {p : Progress} {a : Arrival}
    {rest : List Arrival} {e : StackError} (h : visit code labels p a rest = .error e) :
    ∃ i, code[a.place]? = some i ∧ ¬ (Proceeds labels i a.depth ∧ a.depth ≤ depthLimit ∧
      i.depthAfter a.depth ≤ depthLimit) := by
  rw [visit] at h
  cases hi : code[a.place]? with
  | none => simp [hi] at h
  | some i =>
      refine ⟨i, rfl, ?_⟩
      rintro ⟨⟨enough, located⟩, hdepth, narrow⟩
      have countable : ¬ depthLimit < i.pops := by omega
      rw [Instruction.depthAfter] at narrow
      simp only [hi, if_neg countable, if_neg (Nat.not_lt.2 enough),
        if_neg (Nat.not_lt.2 narrow)] at h
      cases hs : successors labels i a.place (a.depth - i.pops + i.pushes) with
      | error e' =>
          obtain ⟨l, ht, hl⟩ := successors_error hs
          obtain ⟨target, htarget⟩ := located l ht
          simp [hl] at htarget
      | ok next => simp [hs] at h

/-- A visit of an unvisited place keeps the invariant. -/
lemma Explored.visit {code : Code} {labels : LabelTable} (hl : labelTable code = .ok labels)
    {p p' : Progress} (hp : Explored code labels p) {a : Arrival} {rest : List Arrival}
    (hnext : nextArrival p.depths p.pending = .ok (some (a, rest)))
    (h : StackProfile.visit code labels p a rest = .ok p') : Explored code labels p' := by
  obtain ⟨unseen, ha, hrest, kept⟩ := nextArrival_some hnext
  obtain ⟨hdepths, hdeepest, hpending, hbounded⟩ := visit_ok h
  have arrived : Arrives code labels a := hp.arrives (.inl ha)
  have room : a.place < p.depths.size := by
    have := arrived.place_le hl
    rw [hp.size]
    omega
  -- the recorded depths are the old ones and the one at the visited place
  have recorded : ∀ {place depth : Nat}, p'.depths[place]? = some (some depth) ↔
      (place = a.place ∧ depth = a.depth) ∨ p.depths[place]? = some (some depth) := by
    intro place depth
    rw [hdepths, Array.getElem?_setIfInBounds]
    by_cases same : a.place = place
    · subst same
      have := unseen depth
      simp only [if_pos room, if_true, this, or_false, true_and, Option.some.injEq]
      exact eq_comm
    · simp [same, Ne.symm same]
  have notes : ∀ {b : Arrival}, p.Notes b → p'.Notes b := by
    rintro b (hb | hb)
    · rcases kept b hb with rfl | hb | hb
      · exact .inr (recorded.2 (.inl ⟨rfl, rfl⟩))
      · exact .inl ((hpending b).2 (.inl hb))
      · exact .inr (recorded.2 (.inr hb))
    · exact .inr (recorded.2 (.inr hb))
  refine ⟨by rw [hdepths]; simpa using hp.size, notes hp.started, ?_, ?_, ?_⟩
  · rintro b (hb | hb)
    · rcases (hpending b).1 hb with hb | ⟨i, hi, hb⟩
      · exact hp.arrives (.inl (hrest hb))
      · exact arrived.step hi (hbounded i hi).1 hb
    · rcases recorded.1 hb with ⟨hplace, hdepth⟩ | hb
      · obtain rfl : b = a := by cases a; cases b; simp_all
        exact arrived
      · exact hp.arrives (.inr hb)
  · intro x b i hx hi hb
    rcases recorded.1 hx with ⟨hplace, hdepth⟩ | hx
    · obtain rfl : x = a := by cases a; cases x; simp_all
      exact .inl ((hpending b).2 (.inr ⟨i, hi, hb⟩))
    · exact notes (hp.closed hx hi hb)
  · intro x i hx hi
    rcases recorded.1 hx with ⟨hplace, hdepth⟩ | hx
    · obtain rfl : x = a := by cases a; cases x; simp_all
      exact hbounded i hi
    · obtain ⟨proceeds, h1, h2, narrow⟩ := hp.bounded hx hi
      exact ⟨proceeds, Nat.le_trans h1 hdeepest, Nat.le_trans h2 hdeepest, narrow⟩

/-- A visit uses up an unvisited place. -/
lemma unvisited_visit {code : Code} {labels : LabelTable} (hl : labelTable code = .ok labels)
    {p p' : Progress} (hp : Explored code labels p) {a : Arrival} {rest : List Arrival}
    (hnext : nextArrival p.depths p.pending = .ok (some (a, rest)))
    (h : StackProfile.visit code labels p a rest = .ok p') :
    unvisited p'.depths < unvisited p.depths := by
  obtain ⟨unseen, ha, -, -⟩ := nextArrival_some hnext
  have room : a.place < p.depths.toList.length := by
    have := (hp.arrives (.inl ha)).place_le hl
    rw [Array.length_toList, hp.size]
    omega
  have hnone : p.depths.toList[a.place] = none := by
    cases hd : p.depths.toList[a.place] with
    | none => rfl
    | some depth =>
        refine absurd ?_ (unseen depth)
        rw [← Array.getElem?_toList, List.getElem?_eq_getElem room, hd]
  have hpos : 0 < unvisited p.depths := List.count_pos_iff.2 (hnone ▸ List.getElem_mem room)
  have counted : unvisited p'.depths = unvisited p.depths - 1 := by
    rw [unvisited, (visit_ok h).1, Array.toList_setIfInBounds, List.count_set room, hnone]
    simp [unvisited]
  omega

/-! ## All visits -/

/-- An exploration with enough visits left ends with nothing new waiting. -/
lemma Explored.explore {code : Code} {labels : LabelTable} (hl : labelTable code = .ok labels)
    {visits : Nat} {p p' : Progress} (hp : Explored code labels p)
    (enough : unvisited p.depths < visits) (h : explore code labels visits p = .ok p') :
    Explored code labels p' ∧ ∀ b, p'.Notes b → p'.depths[b.place]? = some (some b.depth) := by
  induction visits generalizing p with
  | zero => omega
  | succ visits ih =>
      rw [StackProfile.explore] at h
      split at h
      · exact absurd h (by simp)
      · next hnext =>
          obtain rfl : p = p' := by simpa using h
          refine ⟨hp, ?_⟩
          rintro b (hb | hb)
          · exact nextArrival_none hnext b hb
          · exact hb
      · next a rest hnext =>
          split at h
          · exact absurd h (by simp)
          · next q hq =>
              have := unvisited_visit hl hp hnext hq
              exact ih (hp.visit hl hnext hq) (by omega) h

/-- Where an exploration fails, an arrival is to blame: two ways to a place disagree, an instruction
cannot be carried out, or a depth cannot be counted. -/
lemma Explored.explore_error {code : Code} {labels : LabelTable}
    (hl : labelTable code = .ok labels) {visits : Nat} {p : Progress} {e : StackError}
    (hp : Explored code labels p) (h : StackProfile.explore code labels visits p = .error e) :
    (∃ a b, Arrives code labels a ∧ Arrives code labels b ∧ a.place = b.place ∧
        a.depth ≠ b.depth) ∨
      ∃ a i, Arrives code labels a ∧ code[a.place]? = some i ∧
        ¬ (Proceeds labels i a.depth ∧ a.depth ≤ depthLimit ∧
          i.depthAfter a.depth ≤ depthLimit) := by
  induction visits generalizing p with
  | zero => simp [StackProfile.explore] at h
  | succ visits ih =>
      rw [StackProfile.explore] at h
      split at h
      · next hnext =>
          obtain ⟨b, hb, seen, hseen, differ⟩ := nextArrival_error hnext
          exact .inl ⟨⟨b.place, seen⟩, b, hp.arrives (.inr hseen), hp.arrives (.inl hb),
            rfl, differ⟩
      · exact absurd h (by simp)
      · next a rest hnext =>
          split at h
          · next hq =>
              obtain ⟨i, hi, stuck⟩ := visit_error hq
              exact .inr ⟨a, i, hp.arrives (.inl (nextArrival_some hnext).2.1), hi, stuck⟩
          · next q hq => exact ih (hp.visit hl hnext hq) h

/-! ## The analysis -/

/-- The depth a profile gives for a place, the end of the code included. -/
def depthAt (p : StackProfile) (place : Nat) : Option Nat :=
  (p.depths ++ [p.exitDepth])[place]?.join

/-- What accepted code was accepted for: its labels are located, and the exploration came to an
end with every arrival recorded. -/
lemma analyze_ok {code : Code} {p : StackProfile} (h : analyze code = .ok p) :
    ∃ labels q, labelTable code = .ok labels ∧ Explored code labels q ∧
      (∀ b, q.Notes b → q.depths[b.place]? = some (some b.depth)) ∧
      p.depths.length = code.size ∧ (∀ place, p.depthAt place = q.depths[place]?.join) ∧
      p.maxDepth = q.deepest := by
  rw [analyze] at h
  split at h
  · exact absurd h (by simp)
  · next labels hlabels =>
      split at h
      · exact absurd h (by simp)
      · next q hq =>
          simp only [Except.ok.injEq] at h
          have enough : unvisited (start code).depths < code.size + 2 := by
            simp [unvisited, start]
          obtain ⟨hexplored, hdone⟩ := (explored_start code labels).explore hlabels enough hq
          have hsize : q.depths.toList.length = code.size + 1 := by simpa using hexplored.size
          refine ⟨labels, q, hlabels, hexplored, hdone, ?_, ?_, by rw [← h]⟩
          · rw [← h, List.length_take, hsize]
            omega
          · intro place
            have whole : q.depths.toList.take code.size ++ [q.depths[code.size]?.join]
                = q.depths.toList := by
              have hlast : code.size < q.depths.toList.length := by omega
              rw [← Array.getElem?_toList, List.getElem?_eq_getElem hlast, Option.join_some,
                List.take_append_getElem, List.take_of_length_le (by omega)]
            rw [← h, depthAt, whole, Array.getElem?_toList]

/-- **The profile of accepted code is the set of its arrivals.** -/
theorem depthAt_iff_arrives {code : Code} {labels : LabelTable} {p : StackProfile}
    (h : analyze code = .ok p) (hl : labelTable code = .ok labels) {place depth : Nat} :
    p.depthAt place = some depth ↔ Arrives code labels ⟨place, depth⟩ := by
  obtain ⟨labels', q, hlabels, hq, hdone, -, hdepth, -⟩ := analyze_ok h
  obtain rfl : labels = labels' := by simpa [hl] using hlabels
  have recorded : p.depthAt place = some depth ↔ q.depths[place]? = some (some depth) := by
    rw [hdepth, Option.join_eq_some_iff]
  rw [recorded]
  constructor
  · exact fun hd => hq.arrives (.inr hd)
  · intro ha
    generalize hx : (⟨place, depth⟩ : Arrival) = x at ha
    suffices q.depths[x.place]? = some (some x.depth) by subst hx; exact this
    clear hx
    induction ha with
    | start => exact hdone _ hq.started
    | step _ hi _ hb ih => exact hdone _ (hq.closed ih hi hb)

/-- At an arrival in accepted code the instruction can be carried out, and neither the depth
before it nor the depth after it is beyond the greatest depth, or too great to be counted. -/
theorem bounded_of_arrives {code : Code} {labels : LabelTable} {p : StackProfile}
    (h : analyze code = .ok p) (hl : labelTable code = .ok labels) {a : Arrival} {i : Instruction}
    (ha : Arrives code labels a) (hi : code[a.place]? = some i) :
    Proceeds labels i a.depth ∧ a.depth ≤ p.maxDepth ∧ i.depthAfter a.depth ≤ p.maxDepth ∧
      i.depthAfter a.depth ≤ depthLimit := by
  have hd := (depthAt_iff_arrives h hl).2 ha
  obtain ⟨labels', q, hlabels, hq, -, -, hdepth, hmax⟩ := analyze_ok h
  obtain rfl : labels = labels' := by simpa [hl] using hlabels
  rw [hdepth, Option.join_eq_some_iff] at hd
  rw [hmax]
  exact hq.bounded hd hi

/-- Where the depth after every instruction can be counted, every depth can. -/
lemma Arrives.depth_le {code : Code} {labels : LabelTable} {a : Arrival}
    (h : Arrives code labels a)
    (narrow : ∀ a i, Arrives code labels a → code[a.place]? = some i →
      i.depthAfter a.depth ≤ depthLimit) : a.depth ≤ depthLimit := by
  cases h with
  | start => exact Nat.zero_le _
  | step ha hi _ hb =>
      rw [hb.1]
      exact narrow _ _ ha hi

/-- **Code on whose arrivals nothing goes wrong is accepted**, if its depths can be counted. -/
theorem analyze_of_sound {code : Code} {labels : LabelTable} (hl : labelTable code = .ok labels)
    (agree : ∀ a b, Arrives code labels a → Arrives code labels b → a.place = b.place →
      a.depth = b.depth)
    (proceed : ∀ a i, Arrives code labels a → code[a.place]? = some i →
      Proceeds labels i a.depth)
    (narrow : ∀ a i, Arrives code labels a → code[a.place]? = some i →
      i.depthAfter a.depth ≤ depthLimit) :
    ∃ p, analyze code = .ok p := by
  rw [analyze, hl]
  cases hq : explore code labels (code.size + 2) (start code) with
  | ok q => exact ⟨_, by simp only [hq]; rfl⟩
  | error e =>
      exfalso
      rcases (explored_start code labels).explore_error hl hq with
        ⟨a, b, ha, hb, hplace, differ⟩ | ⟨a, i, ha, hi, stuck⟩
      · exact differ (agree a b ha hb hplace)
      · exact stuck ⟨proceed a i ha hi, ha.depth_le narrow, narrow a i ha hi⟩

end StackProfile

end StackBackend
