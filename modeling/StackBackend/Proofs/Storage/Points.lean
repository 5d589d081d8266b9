import StackBackend.Proofs.Machine.Regions
import StackBackend.Proofs.StackProfile.Flow
import StackBackend.Proofs.Storage.Instructions

/-!
# Storage at the points of a frame

The frames of a run share one heap.  A piece of code of one frame sees what its operands and locals
lead to; what the frames around it are still making is hidden from it, and stays as it is.

* `Machine.Sound` — references lead to objects, and the next instruction, whatever comes of it,
  leaves every list with its array, of the length it had, and with its items, unless it is
  `setElement` on a list around that array;
* `Point.Clear hidden kept p` — nothing hidden can be seen from a point, but through some slots;
* `Point.Later`, `Point.Arrives` — what code has done since a point, and where it has come;
* `Site.Passing` — every run from a point is sound and inside a piece of code, or came through it.

`passing_quiet` carries out one quiet instruction, `passing_straight` a sequence of them, and
`passing_truth` the two branches that make a truth value.
-/

namespace StackBackend

open Heap StackProfile

/-! ## Sound states -/

/-- **Storage is in order and the next instruction keeps it so.** -/
structure Machine.Sound (c : ClassFile) (m : Machine) : Prop where
  located : labelTable m.frame.code = .ok m.frame.labels
  stack : ∀ v ∈ m.frame.stack, m.world.heap.Sees ∅ v
  locals : ∀ slot : Nat, m.world.heap.Sees ∅ (m.frame.locals[slot]?.getD .null)
  grounded : m.world.heap.Guards ∅
  turns : ∀ i, m.frame.code[m.frame.pc]? = some i → Turns ∅ (m.frame.assigned i) m.world.heap
    (m.frame.advanced.execute c i m.world).2.heap

namespace Point

/-- **Nothing hidden can be seen from a point**, but through some slots. -/
structure Clear (hidden kept : Set Nat) (p : Point) : Prop where
  sealed : p.world.heap.Sealed hidden
  stack : ∀ v ∈ p.stack, p.world.heap.Sees ∅ v
  held : ∀ slot : Nat, p.world.heap.Sees ∅ (p.locals[slot]?.getD .null)
  locals : ∀ slot : Nat, slot ∉ kept → p.world.heap.Sees hidden (p.locals[slot]?.getD .null)

/-- **What a piece of code has done since a point.** -/
structure Later (hidden kept same : Set Nat) (p q : Point) : Prop where
  clear : q.Clear hidden kept
  kept : Kept hidden p.world.heap q.world.heap
  same : ∀ slot ∈ same, q.locals[slot]?.getD .null = p.locals[slot]?.getD .null

/-- **Where a piece of code has come**: to a place, with `height` operands that can be seen. -/
structure Arrives (hidden kept same : Set Nat) (p : Point) (pc : Nat) (base : List Value)
    (height : Nat) (q : Point) : Prop where
  later : p.Later hidden kept same q
  place : q.pc = pc
  stack : ∃ ops, q.stack = ops ++ base ∧ ops.length = height ∧
    ∀ v ∈ ops, q.world.heap.Sees hidden v

variable {hidden kept same : Set Nat} {p q r : Point}

lemma Clear.later (h : p.Clear hidden kept) (same : Set Nat) : p.Later hidden kept same p :=
  ⟨h, .refl hidden _, fun _ _ => rfl⟩

lemma Later.trans (h : p.Later hidden kept same q) (h' : q.Later hidden kept same r) :
    p.Later hidden kept same r :=
  ⟨h'.clear, h.kept.trans h'.kept, fun slot hslot => (h'.same slot hslot).trans (h.same slot hslot)⟩

lemma Clear.arrives (h : p.Clear hidden kept) (same : Set Nat) :
    p.Arrives hidden kept same p.pc p.stack 0 p :=
  ⟨h.later same, rfl, [], rfl, rfl, by simp⟩

/-- The one operand that came can be seen. -/
lemma Arrives.sees {pc : Nat} {base : List Value} {v : Value}
    (h : p.Arrives hidden kept same pc base 1 q) (hv : q.stack = v :: base) :
    q.world.heap.Sees hidden v := by
  obtain ⟨ops, hstack, hlength, hops⟩ := h.stack
  obtain ⟨x, rfl⟩ := List.length_eq_one_iff.1 hlength
  obtain rfl : x = v := by simpa [hv, eq_comm] using hstack
  exact hops x (List.mem_singleton_self x)

/-- Operands that were there are still there, below the ones that came. -/
lemma Arrives.extend {pc pc' height k : Nat} {base : List Value}
    (h : p.Arrives hidden kept same pc base height q)
    (h' : q.Arrives hidden kept same pc' q.stack k r) :
    p.Arrives hidden kept same pc' base (height + k) r := by
  obtain ⟨ops, hstack, hlength, hops⟩ := h.stack
  obtain ⟨results, hstack', hlength', hresults⟩ := h'.stack
  refine ⟨h.later.trans h'.later, h'.place, results ++ ops, by simp [hstack', hstack], ?_, ?_⟩
  · simp [hlength, hlength', Nat.add_comm]
  · intro v hv
    rcases List.mem_append.1 hv with hv | hv
    · exact hresults v hv
    · exact h'.later.kept.sees (hops v hv)

end Point

namespace Site

variable {s : Site} {lo hi n : Nat} {p q : Point} {Q R : Point → Prop}

/-- A state is sound if its next instruction takes no array that a list is around. -/
lemma sound_of_clear {hidden kept : Set Nat} (hclear : p.Clear hidden kept) {i : Instruction}
    (hi : s.code[p.pc]? = some i) (hlibrary : i.IsLibrary)
    (hloose : ∀ a, (s.frame p).filled i = .ref a → p.world.heap.Loose a) :
    Machine.Sound s.classFile (s.machine p) where
  located := s.located
  stack := hclear.stack
  locals := hclear.held
  grounded := hclear.sealed.grounded
  turns j hj := by
    obtain rfl : i = j := Option.some.inj (hi.symm.trans hj)
    have sealed : p.world.heap.Sealed ∅ :=
      ⟨hclear.sealed.grounded, hclear.sealed.grounded, by simp⟩
    exact Frame.execute_turns (f := (s.frame p).advanced) s.apart hlibrary sealed
      (fun v hv => hclear.stack v (List.mem_of_mem_take hv)) hloose

/-! ## Passing through code -/

/-- Sound states on the way through a piece of code. -/
def Region (s : Site) (lo hi : Nat) (m : Machine) : Prop :=
  Machine.Sound s.classFile m ∧ s.Inside lo hi m

/-- **Every run from a point is sound and inside a piece of code, or has come through it.** -/
def Passing (s : Site) (lo hi n : Nat) (p : Point) (Q : Point → Prop) : Prop :=
  Machine.Passes s.classFile (s.Region lo hi) n (s.machine p) fun m => ∃ q, m = s.machine q ∧ Q q

lemma Region.widen {lo' hi' : Nat} {m : Machine} (h : s.Region lo' hi' m) (hlo : lo ≤ lo')
    (hhi : hi' ≤ hi) : s.Region lo hi m :=
  ⟨h.1, h.2.widen hlo hhi⟩

lemma Passing.here (h : Q p) : s.Passing lo hi n p Q := Machine.Passes.here ⟨p, rfl, h⟩

/-- One piece of code after another, knowing how the first was run through. -/
lemma Passing.bind {lo' hi' : Nat} (h : s.Passing lo' hi' n p Q) (hlo : lo ≤ lo') (hhi : hi' ≤ hi)
    (hnext : ∀ q i, i ≤ n → Q q →
      Machine.Runs s.classFile (s.Region lo' hi') (s.machine p) i (s.machine q) →
      s.Passing lo hi (n - i) q R) : s.Passing lo hi n p R := by
  refine Machine.Passes.bind h (fun _ hm => hm.widen hlo hhi) ?_
  rintro _ i hle ⟨q, rfl, hq⟩ hruns
  exact hnext q i hle hq hruns

/-- One piece of code after another. -/
lemma Passing.seq {lo' hi' : Nat} (h : s.Passing lo' hi' n p Q) (hlo : lo ≤ lo') (hhi : hi' ≤ hi)
    (hnext : ∀ q k, k ≤ n → Q q → s.Passing lo hi k q R) : s.Passing lo hi n p R :=
  h.bind hlo hhi fun q i _ hq _ => hnext q (n - i) (Nat.sub_le n i) hq

lemma Passing.weaken (h : s.Passing lo hi n p Q) (hQ : ∀ q, Q q → R q) : s.Passing lo hi n p R :=
  h.seq (Nat.le_refl lo) (Nat.le_refl hi) fun q _ _ hq => .here (hQ q hq)

/-- One instruction that stays in the frame, if it succeeds. -/
lemma Passing.step {i : Instruction} (hcode : s.code[p.pc]? = some i) (hlo : lo ≤ p.pc)
    (hhi : p.pc < hi) (hsound : Machine.Sound s.classFile (s.machine p))
    (hnext : ∀ control w, 0 < n →
      (s.frame p).advanced.execute s.classFile i p.world = (.ok control, w) →
      ∃ q, control = .next (s.frame q) ∧ w = q.world ∧ s.Passing lo hi (n - 1) q Q) :
    s.Passing lo hi n p Q := by
  refine Machine.Passes.step ⟨hsound, inside_machine hlo hhi⟩ fun k m' hk hmove => ?_
  cases hmove with
  | @execute _ j control w hj hexec hfollow =>
      obtain rfl : i = j := Option.some.inj (hcode.symm.trans hj)
      obtain ⟨q, rfl, rfl, hq⟩ := hnext control w hk hexec
      obtain rfl : s.machine q = m' := by simpa [Machine.follow, machine] using hfollow
      exact hq
  | fall hnone _ => simp [machine, frame, hcode] at hnone

/-- One instruction of which it is known where it leads. -/
lemma Passing.exact {i : Instruction} (hcode : s.code[p.pc]? = some i) (hlo : lo ≤ p.pc)
    (hhi : p.pc < hi) (hsound : Machine.Sound s.classFile (s.machine p))
    (hexec : (s.frame p).advanced.execute s.classFile i p.world
      = (.ok (.next (s.frame q)), q.world))
    (hnext : s.Passing lo hi (n - 1) q Q) : s.Passing lo hi n p Q := by
  refine .step hcode hlo hhi hsound fun control w _ h => ?_
  obtain ⟨rfl, rfl⟩ : .next (s.frame q) = control ∧ q.world = w := by simpa [hexec] using h
  exact ⟨q, rfl, rfl, hnext⟩

/-- Code without calls is run through in its frame, by sound states. -/
lemma region_of_has {code : List Instruction}
    (hruns : Machine.Runs s.classFile (s.Region lo hi) (s.machine p) n (s.machine q))
    (hhas : s.Has lo code) (hhi : hi = lo + code.length)
    (hstays : code.all Instruction.staysPut = true) :
    Machine.Runs s.classFile (fun m => s.Region lo hi m ∧ s.Along lo hi m) (s.machine p) n
      (s.machine q) := by
  refine along_of_runs hruns (fun _ hm => hm.2) (fun r hlo hr k m hmove => ?_) (Nat.le_refl _)
  have inside : r.pc - lo < code.length := by omega
  have hcode : s.code[r.pc]? = some code[r.pc - lo] := by
    rw [← hhas (r.pc - lo) _ (List.getElem?_eq_getElem inside), Nat.add_sub_cancel' hlo]
  have stays := List.all_eq_true.1 hstays _ (List.getElem_mem inside)
  cases hmove with
  | @execute _ i control w hi hexec hfollow =>
      obtain rfl : code[r.pc - lo] = i := Option.some.inj (hcode.symm.trans hi)
      have leads := Frame.execute_leadsTo s.apart (Instruction.isLibrary_of_staysPut stays) hexec
      cases control with
      | next f =>
          obtain rfl := Except.ok.inj hfollow
          exact Nat.le_refl _
      | enter caller callee =>
          obtain ⟨kind, hinvoke⟩ := leads
          simp [hinvoke] at stays
      | leave f result =>
          rcases leads with hret | hret <;> simp [hret, Instruction.staysPut] at stays
  | fall hnone _ => simp [machine, frame, hcode] at hnone

lemma along_of_has {code : List Instruction}
    (hruns : Machine.Runs s.classFile (s.Region lo hi) (s.machine p) n (s.machine q))
    (hhas : s.Has lo code) (hhi : hi = lo + code.length)
    (hstays : code.all Instruction.staysPut = true) :
    Machine.Runs s.classFile (s.Along lo hi) (s.machine p) n (s.machine q) :=
  (region_of_has hruns hhas hhi hstays).widen fun _ hm => hm.2

/-! ## Quiet code -/

section Quiet

variable {hidden kept same : Set Nat} {p₀ : Point} {pc d : Nat} {base : List Value}
  {i : Instruction}

/-- Where control can be after an instruction. -/
def GoesTo (s : Site) (i : Instruction) (pc place : Nat) : Prop :=
  (i.endsBlock = false ∧ place = pc + 1) ∨
    ∃ l, i.target? = some l ∧ s.code[place]? = some (.label l)

/-- Without a label to go to, control goes on behind the instruction. -/
lemma GoesTo.next {place : Nat} (h : s.GoesTo i pc place) (htarget : i.target? = none) :
    place = pc + 1 := by
  rcases h with ⟨-, hplace⟩ | ⟨l, hl, -⟩
  · exact hplace
  · simp [htarget] at hl

lemma GoesTo.next_of_isStraight {place : Nat} (h : s.GoesTo i pc place)
    (hstraight : i.isStraight = true) : place = pc + 1 := by
  refine h.next ?_
  simp only [Instruction.isStraight_eq, Bool.and_eq_true, Option.isNone_iff_eq_none] at hstraight
  exact hstraight.1.1

/-- **One quiet instruction**, with its operands there or nothing else on the stack. -/
theorem passing_quiet (harrives : p₀.Arrives hidden kept same pc base d p)
    (hcode : s.code[pc]? = some i) (hquiet : i.isQuiet = true) (hpops : i.pops ≤ d ∨ base = [])
    (hload : ∀ slot, i = .load slot → slot ∉ kept) (hstore : ∀ slot, i = .store slot → slot ∉ same)
    (hlo : lo ≤ pc) (hhi : pc < hi)
    (hnext : ∀ q place, 0 < n → p₀.Arrives hidden kept same place base (i.depthAfter d) q →
      s.GoesTo i pc place →
      (s.frame p).advanced.execute s.classFile i p.world = (.ok (.next (s.frame q)), q.world) →
      s.Passing lo hi (n - 1) q Q) : s.Passing lo hi n p Q := by
  obtain ⟨later, rfl, ops, hstack, rfl, hops⟩ := harrives
  have clear := later.clear
  have visible : ∀ v ∈ p.stack.take i.pops, p.world.heap.Sees hidden v := by
    intro v hv
    rw [hstack] at hv
    rcases hpops with hpops | rfl
    · exact hops v (List.mem_of_mem_take (List.take_append_of_le_length hpops ▸ hv))
    · exact hops v (by simpa using List.mem_of_mem_take hv)
  refine .step hcode hlo hhi (sound_of_clear clear hcode (Instruction.isLibrary_of_isQuiet hquiet)
    (by simp [Frame.filled_of_isQuiet hquiet])) fun control w hpos hexec => ?_
  have turned : Turns hidden ((s.frame p).assigned i) p.world.heap w.heap := by
    have turned := Frame.execute_turns (f := (s.frame p).advanced) s.apart
      (Instruction.isLibrary_of_isQuiet hquiet) clear.sealed visible
      (by simp [Frame.filled_of_isQuiet hquiet])
    rw [hexec] at turned
    exact turned
  obtain ⟨f', rfl, enough, hrest, ⟨results, hstack', hresults, hsees⟩, hplace, hlocals⟩ :=
    Frame.execute_quiet (f := (s.frame p).advanced) s.apart hquiet clear.sealed visible
      (fun slot hslot => clear.locals slot (hload slot hslot)) hexec
  have taken : i.pops ≤ ops.length := by
    rcases hpops with hpops | rfl
    · exact hpops
    · simpa [Frame.advanced, frame, hstack] using enough
  have dropped : (s.frame p).advanced.stack.drop i.pops = ops.drop i.pops ++ base := by
    show p.stack.drop i.pops = _
    rw [hstack, List.drop_append_of_le_length taken]
  have grown : ∀ {hidden v}, p.world.heap.Sees hidden v → w.heap.Sees hidden v :=
    fun hv => hv.mono turned.kept.grows subset_rfl
  have written : ∀ slot : Nat, f'.locals[slot]?.getD .null = p.locals[slot]?.getD .null ∨
      i = .store slot ∧ w.heap.Sees hidden (f'.locals[slot]?.getD .null) := hlocals
  rw [dropped] at hstack'
  have framed : f' = s.frame ⟨f'.pc, f'.stack, f'.locals, w⟩ := by
    rw [hrest]
    rfl
  refine ⟨⟨f'.pc, f'.stack, f'.locals, w⟩, by rw [← framed], rfl,
    hnext _ f'.pc hpos ?_ ?_ (by rw [hexec, ← framed])⟩
  · refine ⟨⟨⟨turned.sealed, ?_, ?_, ?_⟩, later.kept.trans turned.kept, ?_⟩, rfl,
      results ++ ops.drop i.pops, by simp [hstack'], ?_, ?_⟩
    · intro v hv
      rw [hstack'] at hv
      rcases List.mem_append.1 hv with hv | hv
      · exact (hsees v hv).grounded
      · refine grown (clear.stack v ?_)
        rw [hstack]
        rcases List.mem_append.1 hv with hv | hv
        · exact List.mem_append_left _ (List.mem_of_mem_drop hv)
        · exact List.mem_append_right _ hv
    · intro slot
      rcases written slot with hsame | ⟨-, hv⟩
      · rw [hsame]
        exact grown (clear.held slot)
      · exact hv.grounded
    · intro slot hslot
      rcases written slot with hsame | ⟨-, hv⟩
      · rw [hsame]
        exact grown (clear.locals slot hslot)
      · exact hv
    · intro slot hslot
      rcases written slot with hsame | ⟨hstored, -⟩
      · exact hsame.trans (later.same slot hslot)
      · exact absurd hslot (hstore slot hstored)
    · rw [List.length_append, hresults, List.length_drop, Instruction.depthAfter]
      omega
    · intro v hv
      rcases List.mem_append.1 hv with hv | hv
      · exact hsees v hv
      · exact grown (hops v (List.mem_of_mem_drop hv))
  · rcases hplace with ⟨hends, hpc⟩ | ⟨l, htarget, hpc⟩
    · exact .inl ⟨hends, hpc⟩
    · exact .inr ⟨l, htarget, (lookup_labelTable s.located).1 hpc⟩

/-- A quiet instruction of which it is known where it leads. -/
lemma passing_known (harrives : p₀.Arrives hidden kept same pc base d p)
    (hcode : s.code[pc]? = some i) (hquiet : i.isQuiet = true) (hpops : i.pops ≤ d)
    (hload : ∀ slot, i = .load slot → slot ∉ kept) (hstore : ∀ slot, i = .store slot → slot ∉ same)
    (hlo : lo ≤ pc) (hhi : pc < hi) (q : Point)
    (hexec : (s.frame p).advanced.execute s.classFile i p.world
      = (.ok (.next (s.frame q)), q.world))
    (hnext : p₀.Arrives hidden kept same q.pc base (i.depthAfter d) q →
      s.Passing lo hi (n - 1) q Q) :
    s.Passing lo hi n p Q := by
  refine passing_quiet harrives hcode hquiet (.inl hpops) hload hstore hlo hhi
    fun q' place _ hq' _ hexec' => ?_
  obtain ⟨hframe, hworld⟩ : s.frame q = s.frame q' ∧ q.world = q'.world := by
    simpa [hexec] using hexec'
  obtain rfl : q = q' := by
    obtain ⟨_, _, _, _⟩ := q
    obtain ⟨_, _, _, _⟩ := q'
    simp only [frame, Frame.mk.injEq] at hframe hworld
    grind
  exact hnext (hq'.place ▸ hq')

/-- **A sequence of quiet instructions** that does not touch the slots in use. -/
theorem passing_straight {code : List Instruction} {e : Nat}
    (harrives : p₀.Arrives hidden kept same pc base d p) (hhas : s.Has pc code)
    (hdepth : straightDepth? d code = some e) (hquiet : code.all Instruction.isQuiet = true)
    (hload : ∀ slot, .load slot ∈ code → slot ∉ kept)
    (hstore : ∀ slot, .store slot ∈ code → slot ∉ same) (hlo : lo ≤ pc)
    (hhi : pc + code.length ≤ hi) :
    s.Passing lo hi n p (p₀.Arrives hidden kept same (pc + code.length) base e) := by
  induction code generalizing p pc d n with
  | nil =>
      obtain rfl : d = e := by simpa [straightDepth?] using hdepth
      exact .here harrives
  | cons i rest ih =>
      obtain ⟨hi', hrest⟩ := has_cons.1 hhas
      rw [straightDepth?] at hdepth
      split at hdepth
      · next hstraight =>
          obtain ⟨hstraight, hpops⟩ := hstraight
          obtain ⟨hfirst, hothers⟩ := Bool.and_eq_true_iff.1 hquiet
          rw [List.length_cons] at hhi ⊢
          refine passing_quiet harrives hi' hfirst (.inl hpops)
            (fun slot h => hload slot (by simp [h])) (fun slot h => hstore slot (by simp [h])) hlo
            (by omega) fun q place _ hq hgoes _ => ?_
          obtain rfl := hgoes.next_of_isStraight hstraight
          rw [show pc + (rest.length + 1) = pc + 1 + rest.length by omega]
          exact ih hq hrest hdepth hothers
            (fun slot h => hload slot (by simp [h])) (fun slot h => hstore slot (by simp [h]))
            (by omega) (by omega)
      · simp at hdepth

end Quiet

end Site

end StackBackend
