import StackBackend.Proofs.Machine.Site

/-!
# Runs through a region

A piece of code is entered at its beginning and, if it is ever completed, left at its end.  On the
way the run may enter methods and come back.  This file says what it is to be on the way.

* `Machine.Runs c I m n m'` — a run whose states, up to the last, are all in the region `I`;
* `Machine.Passes c I n m Q` — every run of at most `n` steps from `m` is still in the region, or
  has come through the region to a state that `Q` describes, and goes on from there;
* `Site.Inside lo hi` — the region of a piece of code of one frame: the frame is at a place of the
  piece (`Site.Along`), or has called a method from there and waits for it.

`Passes` says nothing about runs that fail on the way, and does not promise that a run completes.
What comes back to where it was is an induction on the number of steps.
-/

namespace StackBackend

namespace Machine

variable {c : ClassFile} {I J : Machine → Prop} {m m' m'' : Machine} {k n : Nat}
  {Q R : Machine → Prop}

/-! ## Runs inside a region -/

/-- **A run inside a region**, its last state apart. -/
inductive Runs (c : ClassFile) (I : Machine → Prop) : Machine → Nat → Machine → Prop
  | refl {m : Machine} : Runs c I m 0 m
  | move {m m' m'' : Machine} {k n : Nat} : I m → Moves c m k m' → Runs c I m' n m'' →
      Runs c I m (k + n) m''

lemma Runs.trans (h : Runs c I m k m') (h' : Runs c I m' n m'') : Runs c I m (k + n) m'' := by
  induction h with
  | refl => simpa using h'
  | move hI hmove _ ih =>
      rw [Nat.add_assoc]
      exact .move hI hmove (ih h')

lemma Runs.widen (h : Runs c J m n m') (hsub : ∀ m, J m → I m) : Runs c I m n m' := by
  induction h with
  | refl => exact .refl
  | move hJ hmove _ ih => exact .move (hsub _ hJ) hmove ih

/-! ## Passing through a region -/

/-- **Every run of at most `n` steps is still in the region, or has come through it** to a state
that `Q` describes. -/
def Passes (c : ClassFile) (I : Machine → Prop) (n : Nat) (m : Machine) (Q : Machine → Prop) :
    Prop :=
  ∀ k m', k ≤ n → Leads c m k m' →
    I m' ∨ ∃ q i j, Q q ∧ Runs c I m i q ∧ Leads c q j m' ∧ i + j = k

lemma Passes.here (h : Q m) : Passes c I n m Q :=
  fun k _ _ hleads => .inr ⟨m, 0, k, h, .refl, hleads, Nat.zero_add k⟩

/-- **One region after another**: what comes after may know how the first was run through. -/
lemma Passes.bind (h : Passes c J n m Q) (hsub : ∀ m, J m → I m)
    (hnext : ∀ q i, i ≤ n → Q q → Runs c J m i q → Passes c I (n - i) q R) : Passes c I n m R := by
  intro k m' hk hleads
  rcases h k m' hk hleads with hJ | ⟨q, i, j, hq, hruns, hrest, rfl⟩
  · exact .inl (hsub m' hJ)
  · rcases hnext q i (by omega) hq hruns j m' (by omega) hrest with
      hI | ⟨r, i', j', hr, hruns', hrest', rfl⟩
    · exact .inl hI
    · exact .inr ⟨r, i + i', j', hr, (hruns.widen hsub).trans hruns', hrest', by omega⟩

/-- **One move inside the region.** -/
lemma Passes.step (hI : I m)
    (hnext : ∀ k m', k ≤ n → Moves c m k m' → Passes c I (n - k) m' Q) : Passes c I n m Q := by
  intro k m' hk hleads
  cases hleads with
  | refl => exact .inl hI
  | @move _ next _ k' n' hmove hrest =>
      rcases hnext k' next (by omega) hmove n' m' (by omega) hrest with
        hI' | ⟨q, i, j, hq, hruns, hrest', rfl⟩
      · exact .inl hI'
      · exact .inr ⟨q, k' + i, j, hq, .move hI hmove hruns, hrest', by omega⟩

end Machine

/-! ## Pieces of code -/

namespace Site

/-- At one of the places of a piece of code. -/
def Along (s : Site) (lo hi : Nat) (m : Machine) : Prop :=
  ∃ r : Point, m = s.machine r ∧ lo ≤ r.pc ∧ r.pc < hi

/-- **On the way through a piece of code**: at one of its places, or in a method called there. -/
def Inside (s : Site) (lo hi : Nat) (m : Machine) : Prop :=
  s.Along lo hi m ∨ ∃ above r, m.callers = above ++ s.frame r :: s.callers ∧ lo < r.pc ∧ r.pc ≤ hi

variable {s : Site} {lo hi lo' hi' : Nat} {m : Machine}

lemma inside_machine {p : Point} (hlo : lo ≤ p.pc) (hhi : p.pc < hi) :
    s.Inside lo hi (s.machine p) :=
  .inl ⟨p, rfl, hlo, hhi⟩

lemma Along.widen (h : s.Along lo hi m) (hlo : lo' ≤ lo) (hhi : hi ≤ hi') : s.Along lo' hi' m := by
  obtain ⟨r, hm, hr, hr'⟩ := h
  exact ⟨r, hm, by omega, by omega⟩

lemma Inside.widen (h : s.Inside lo hi m) (hlo : lo' ≤ lo) (hhi : hi ≤ hi') :
    s.Inside lo' hi' m := by
  rcases h with h | ⟨above, r, hm, hr, hr'⟩
  · exact .inl (h.widen hlo hhi)
  · exact .inr ⟨above, r, hm, by omega, by omega⟩

/-- What is inside a called method is inside the piece it was called from. -/
lemma Inside.of_callee {callee : Site} {r : Point} (h : callee.Inside lo' hi' m)
    (hcallers : callee.callers = s.frame r :: s.callers) (hlo : lo < r.pc) (hhi : r.pc ≤ hi) :
    s.Inside lo hi m := by
  rcases h with ⟨r', rfl, -, -⟩ | ⟨above, r', hm, -, -⟩
  · exact .inr ⟨[], r, by simpa [machine] using hcallers, hlo, hhi⟩
  · exact .inr ⟨above ++ [callee.frame r'], r, by simp [hm, hcallers], hlo, hhi⟩

/-- With no more callers than the frame has, it is the frame that runs. -/
lemma Inside.along (h : s.Inside lo hi m) (hcallers : m.callers.length ≤ s.callers.length) :
    s.Along lo hi m := by
  rcases h with h | ⟨above, r, hm, -, -⟩
  · exact h
  · simp only [hm, List.length_append, List.length_cons] at hcallers
    omega

/-- **A piece of code from which no method is called** is run through in its frame. -/
lemma along_of_runs {I : Machine → Prop} {n : Nat} {m' : Machine}
    (h : Machine.Runs s.classFile I m n m') (hinside : ∀ m, I m → s.Inside lo hi m)
    (hstays : ∀ r : Point, lo ≤ r.pc → r.pc < hi → ∀ k m'',
      Machine.Moves s.classFile (s.machine r) k m'' → m''.callers.length ≤ s.callers.length)
    (hm : m.callers.length ≤ s.callers.length) :
    Machine.Runs s.classFile (fun m => I m ∧ s.Along lo hi m) m n m' := by
  induction h with
  | refl => exact .refl
  | move hI hmove _ ih =>
      obtain ⟨r, rfl, hlo, hhi⟩ := (hinside _ hI).along hm
      exact .move ⟨hI, r, rfl, hlo, hhi⟩ hmove (ih (hstays r hlo hhi _ _ hmove))

end Site

end StackBackend
