import StackBackend.Proofs.Machine.Site

/-!
# Runs that do not go wrong

A run may end in a fault.  Some faults are part of what a program means: a division by zero, an
index out of range, a limit of the machine, `null` where a value is needed.  The others say that the
code is wrong: too few operands, a value of the wrong class, a method or a label that is not there.

* `Fault.isBenign` — the faults of the first kind, and `GoesWrong`, ending in one of the second;
* `Machine.Safe c n m` — no run of at most `n` steps from a state ends in a fault of the second
  kind.

Safety is shown backwards: a state is safe if the states it leads to are.  `Site.Secures s n p Q`
says that inside one frame, where `Q` describes the points that the point `p` leads to; `bind`,
`step` and `fault` put such facts together.  Since safety is bounded by a number of steps, what
comes back to where it was, a loop or a recursive call, is an induction on that number: each round
takes a step (`Machine.Safe.of_leads`).

A frame is left by a return or at its end, and safety then depends on its caller:
`Machine.Resumes`.
-/

namespace StackBackend

/-- **Faults that are part of what a program means.**  A type mismatch is one if what was found is
`null`. -/
def Fault.isBenign : Fault → Bool
  | indexOutOfBounds _ _ | stringIndex _ _ _ | divisionByZero | nullReference _ | stackOverflow _
  | stepLimit _ => true
  | typeMismatch _ found => found = "null"
  | _ => false

/-- **A run went wrong**: it ended in a fault of the other kind. -/
def GoesWrong (result : Except Fault Outcome) : Prop :=
  ∃ fault, result = .error fault ∧ fault.isBenign = false

namespace Machine

/-- **No run of at most `n` steps goes wrong.** -/
def Safe (c : ClassFile) (n : Nat) (m : Machine) : Prop :=
  ∀ budget limit taken fault, budget ≤ n →
    (run c limit budget taken m).result = .error fault → fault.isBenign = true

variable {c : ClassFile} {m m' : Machine} {k n : Nat}

lemma Safe.mono (h : Safe c n m) (hle : k ≤ n) : Safe c k m :=
  fun budget limit taken fault hbudget => h budget limit taken fault (Nat.le_trans hbudget hle)

/-- **A state is safe if what it leads to is**, for as many steps more. -/
lemma Safe.of_leads (hleads : Leads c m k m') (h : Safe c n m') : Safe c (k + n) m := by
  intro budget limit taken fault hbudget hfault
  by_cases hshort : budget < k
  · rw [(run_of_long hleads hshort limit taken).1] at hfault
    obtain rfl := by simpa using hfault
    rfl
  · obtain ⟨rest, rfl⟩ : ∃ rest, budget = rest + k := ⟨budget - k, by omega⟩
    rw [run_of_leads hleads] at hfault
    exact h rest limit _ fault (by omega) hfault

/-- Without steps to take, nothing goes wrong. -/
lemma Safe.zero {i : Instruction} (hi : m.frame.code[m.frame.pc]? = some i) : Safe c 0 m := by
  intro budget limit taken fault hbudget hfault
  obtain rfl : budget = 0 := by omega
  rw [run, settle_of_some hi] at hfault
  obtain rfl := by simpa using hfault
  rfl

/-- Where a run stops it is safe if it stops well. -/
lemma Safe.of_stops {result : Except Fault Outcome} {w : World} (hstops : Stops c m k result w)
    (hbenign : ∀ fault, result = .error fault → fault.isBenign = true) : Safe c n m := by
  intro budget limit taken fault _ hfault
  by_cases hshort : budget < k
  · have limited : (run c limit budget taken m).result = .error (.stepLimit limit) := by
      cases hstops with
      | fault hi _ | exit hi _ _ =>
          obtain rfl : budget = 0 := by omega
          rw [run, settle_of_some hi]
      | fall _ _ => omega
    obtain rfl := by simpa [limited] using hfault
    rfl
  · obtain ⟨rest, rfl⟩ : ∃ rest, budget = rest + k := ⟨budget - k, by omega⟩
    rw [run_of_stops hstops] at hfault
    exact hbenign fault hfault

/-- **It is safe to go on after a call**, with its result.  A run without callers is over. -/
def Resumes (c : ClassFile) (n : Nat) (callers : List Frame) (use : ResultUse)
    (result : Option Value) (w : World) : Prop :=
  match callers with
  | [] => True
  | caller :: callers =>
    Safe c n { frame := caller.receive use result, callers, world := w.leave 1 }

lemma Resumes.mono {callers : List Frame} {use : ResultUse} {result : Option Value} {w : World}
    (h : Resumes c n callers use result w) (hle : k ≤ n) : Resumes c k callers use result w := by
  cases callers with
  | nil => trivial
  | cons caller callers => exact Safe.mono h hle

end Machine

namespace Site

/-! ## Inside a frame -/

/-- **A point is safe if all the points that `Q` describes are.** -/
def Secures (s : Site) (n : Nat) (p : Point) (Q : Point → Prop) : Prop :=
  (∀ q, Q q → Machine.Safe s.classFile n (s.machine q)) → Machine.Safe s.classFile n (s.machine p)

variable {s : Site} {n : Nat} {p q : Point} {Q R : Point → Prop}

lemma Secures.here (h : Q p) : s.Secures n p Q := fun hQ => hQ p h

lemma Secures.bind (h : s.Secures n p Q) (hnext : ∀ q, Q q → s.Secures n q R) :
    s.Secures n p R :=
  fun hR => h fun q hq => hnext q hq hR

lemma Secures.weaken (h : s.Secures n p Q) (hQ : ∀ q, Q q → R q) : s.Secures n p R :=
  h.bind fun q hq => .here (hQ q hq)

lemma Secures.step {k : Nat} (hsteps : s.Steps p k q) (h : s.Secures n q Q) : s.Secures n p Q :=
  fun hQ => (Machine.Safe.of_leads hsteps (h hQ)).mono (Nat.le_add_left n k)

/-- Steps that lead to where one wants to be. -/
lemma Secures.steps {k : Nat} (hsteps : s.Steps p k q) (h : Q q) : s.Secures n p Q :=
  .step hsteps (.here h)

lemma Secures.fault {fault : Fault} (hfails : s.Fails p fault) (hbenign : fault.isBenign = true) :
    s.Secures n p Q := by
  intro _
  refine Machine.Safe.of_stops hfails fun fault' hfault => ?_
  obtain rfl := by simpa using hfault
  exact hbenign

/-! ## Leaving a frame -/

/-- **It is safe to leave the frame** with a result. -/
def Leaves (s : Site) (n : Nat) (result : Option Value) (w : World) : Prop :=
  Machine.Resumes s.classFile n s.callers s.use result w

/-- A frame is left by an instruction. -/
lemma safe_of_leave {i : Instruction} {frame : Frame} {result : Option Value}
    (hi : s.code[p.pc]? = some i)
    (hexec : (s.frame p).advanced.execute s.classFile i p.world =
    (.ok (.leave frame result), p.world)) (huse : frame.use = s.use)
    (h : s.Leaves n result p.world) : Machine.Safe s.classFile n (s.machine p) := by
  unfold Leaves Machine.Resumes at h
  cases hcallers : s.callers with
  | nil =>
      refine Machine.Safe.of_stops (.exit hi hexec (by rw [machine, hcallers]; rfl)) ?_
      simp
  | cons caller callers =>
      rw [hcallers] at h
      have moves : Machine.Moves s.classFile (s.machine p) 1
          { frame := caller.receive s.use result, callers, world := p.world.leave 1 } :=
        .execute hi hexec (by rw [machine, hcallers, ← huse]; rfl)
      exact (Machine.Safe.of_leads moves.leads h).mono (Nat.le_add_left n 1)

lemma safe_of_ret (hi : s.code[p.pc]? = some .ret) (h : s.Leaves n none p.world) :
    Machine.Safe s.classFile n (s.machine p) :=
  safe_of_leave hi rfl rfl h

lemma safe_of_retValue {pc : Nat} {v : Value} {stack : List Value} {locals : Array Value}
    {w : World} (hi : s.code[pc]? = some .retValue) (h : s.Leaves n (some v) w) :
    Machine.Safe s.classFile n (s.machine ⟨pc, v :: stack, locals, w⟩) :=
  safe_of_leave (p := ⟨pc, v :: stack, locals, w⟩) hi rfl rfl h

/-- A frame is left at its end. -/
lemma safe_of_end (hnone : s.code[p.pc]? = none) (h : s.Leaves n none p.world) :
    Machine.Safe s.classFile n (s.machine p) := by
  unfold Leaves Machine.Resumes at h
  cases hcallers : s.callers with
  | nil => exact Machine.Safe.of_stops (.fall hnone hcallers) (by simp)
  | cons caller callers =>
      rw [hcallers] at h
      have moves : Machine.Moves s.classFile (s.machine p) 0 _ := .fall hnone hcallers
      exact (Machine.Safe.of_leads moves.leads h).mono (Nat.le_add_left n 0)

end Site

end StackBackend
