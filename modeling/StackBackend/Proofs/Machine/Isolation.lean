import StackBackend.Proofs.Machine.StepLimit

/-!
# Requests of one session do not leak into each other

A session keeps four things from one request to the next: the heap, the lines printed, the number of
steps taken and the number of calls that are open.  This file shows that the last is back where it
was after every request, and that of the others only the heap is looked at, but for the steps that
are left.

**Lines printed before.**  No instruction reads what was printed.  So a run behind earlier lines
(`World.behind`) goes through the same states as the run by itself, and prints its own lines after
them (`Machine.Moves.behind`, `Machine.run_resumed`).

**Open calls.**  All frames share one count of the calls that are open.  In every state of a request
it has grown by the frames of this request (`Machine.Counted.moves`), and however the request ends
it has taken all of them back (`Machine.Counted.run`): a fault leaves every frame at once.  So the
count is what it was (`Session.depth_answer`), and a stack that overflows has been filled by this
request alone.

**Sessions.**  `Session.History` are the sessions that come of a fresh one by requests.
`answer_isolated` compares the next answer of such a session with that of a fresh session.
-/

namespace StackBackend

/-! ## Lines printed before -/

/-- The world with some lines printed before all others. -/
def World.behind (earlier : Array String) (w : World) : World :=
  { w with printed := earlier ++ w.printed }

namespace Frame

variable (earlier : Array String) (c : ClassFile) (f : Frame) (w : World)

lemma callOwn_behind (name : String) (receiver : Option Value) (args : List Value)
    (use : ResultUse) :
    f.callOwn c (w.behind earlier) name receiver args use =
      ((f.callOwn c w name receiver args use).1,
        (f.callOwn c w name receiver args use).2.behind earlier) := by
  have same : (w.behind earlier).depth = w.depth := rfl
  rw [callOwn, callOwn, same]
  split
  · rfl
  · split <;> rfl

lemma callMember_behind (name : String) (receiver : Option Value) (args : List Value) :
    f.callMember c (w.behind earlier) name receiver args =
      ((f.callMember c w name receiver args).1,
        (f.callMember c w name receiver args).2.behind earlier) := by
  cases receiver with
  | none => exact f.callOwn_behind earlier c w name none args .ifAny
  | some this =>
      have same : (w.behind earlier).heap = w.heap := rfl
      simp only [callMember, same]
      split
      · split
        · rfl
        · split
          · rfl
          · next heap _ => exact f.callOwn_behind earlier c { w with heap } ..
      · exact f.callOwn_behind earlier c w ..

lemma callLibrary_behind (method : LibraryMethod) (receiver : Option Value) (args : List Value) :
    f.callLibrary c (w.behind earlier) method receiver args =
      ((f.callLibrary c w method receiver args).1,
        (f.callLibrary c w method receiver args).2.behind earlier) := by
  have same : (w.behind earlier).heap = w.heap := rfl
  rw [callLibrary, callLibrary, same]
  split
  · rfl
  · rfl
  · simp [World.behind]
  · next heap _ => exact f.callOwn_behind earlier c { w with heap } ..

lemma callMethod_behind (method : MethodRef) (receiver : Option Value) (args : List Value) :
    f.callMethod c (w.behind earlier) method receiver args =
      ((f.callMethod c w method receiver args).1,
        (f.callMethod c w method receiver args).2.behind earlier) := by
  rw [callMethod, callMethod]
  split
  · exact f.callMember_behind earlier c w ..
  · split
    · exact f.callLibrary_behind earlier c w ..
    · rfl

/-- **No instruction looks at the lines printed before.** -/
lemma execute_behind (i : Instruction) :
    f.execute c i (w.behind earlier) =
      ((f.execute c i w).1, (f.execute c i w).2.behind earlier) := by
  cases i with
  | invoke kind method =>
      simp only [execute, invoke]
      split
      · rfl
      · split
        · exact callMethod_behind earlier c _ w ..
        · split
          · rfl
          · exact callMethod_behind earlier c _ w ..
  | ldc constant => cases constant <;> rfl
  | retValue =>
      simp only [execute]
      split <;> rfl
  | _ => rfl

end Frame

namespace Machine

variable {c : ClassFile} {m m' : Machine} (earlier : Array String)

/-- The state with some lines printed before all others. -/
def behind (m : Machine) : Machine := { m with world := m.world.behind earlier }

lemma follow_behind (callers : List Frame) (w : World) (control : Control) :
    follow callers (w.behind earlier) control =
      (follow callers w control).map (behind earlier) := by
  cases control with
  | next frame | enter caller callee => rfl
  | leave frame result => cases callers <;> rfl

lemma Moves.behind {k : Nat} (h : Moves c m k m') :
    Moves c (m.behind earlier) k (m'.behind earlier) := by
  cases h with
  | @execute _ i control w hi hexec hfollow =>
      have hexec' := m.frame.advanced.execute_behind earlier c m.world i
      have hfollow' := follow_behind earlier m.callers w control
      rw [hexec] at hexec'
      rw [hfollow] at hfollow'
      exact .execute hi hexec' hfollow'
  | fall hnone hcallers => exact .fall hnone hcallers

lemma Leads.behind {n : Nat} (h : Leads c m n m') :
    Leads c (m.behind earlier) n (m'.behind earlier) := by
  induction h with
  | refl => exact .refl
  | move hmove _ ih => exact .move (hmove.behind earlier) ih

lemma Stops.behind {k : Nat} {result : Except Fault Outcome} {w : World}
    (h : Stops c m k result w) : Stops c (m.behind earlier) k result (w.behind earlier) := by
  cases h with
  | @fault i e w hi hexec =>
      have hexec' := m.frame.advanced.execute_behind earlier c m.world i
      rw [hexec] at hexec'
      exact Stops.fault (m := m.behind earlier) hi hexec'
  | @exit i control w outcome hi hexec hfollow =>
      have hexec' := m.frame.advanced.execute_behind earlier c m.world i
      have hfollow' := follow_behind earlier m.callers w control
      rw [hexec] at hexec'
      rw [hfollow] at hfollow'
      exact .exit hi hexec' hfollow'
  | fall hnone hcallers => exact .fall hnone hcallers

end Machine

/-- A result as a session with another limit reports it. -/
def reported (limit : Nat) : Except Fault Outcome → Except Fault Outcome
  | .error (.stepLimit _) => .error (.stepLimit limit)
  | result => result

lemma reported_of_unlimited {result : Except Fault Outcome} (h : Unlimited result) (limit : Nat) :
    reported limit result = result := by
  cases result with
  | ok outcome => rfl
  | error e =>
      cases e with
      | stepLimit limit' => exact absurd rfl (h limit')
      | _ => rfl

namespace Machine

/-- **A run behind earlier lines and steps** ends as the run by itself. -/
lemma run_resumed (c : ClassFile) (earlier : Array String) (limit limit' budget before : Nat)
    (m : Machine) :
    let alone := run c limit' budget 0 m
    run c limit budget before (m.behind earlier) =
      ⟨reported limit alone.result, alone.world.behind earlier, before + alone.steps⟩ := by
  have ended := run_ends c limit' budget 0 m
  generalize run c limit' budget 0 m = alone at ended
  cases ended with
  | @stops n k m' result w hleads hstops hle =>
      obtain ⟨rest, rfl⟩ : ∃ rest, budget = rest + k + n := ⟨budget - k - n, by omega⟩
      rw [run_of_leads (hleads.behind earlier), run_of_stops (hstops.behind earlier)]
      simp only [reported_of_unlimited hstops.unlimited, Nat.zero_add, Nat.add_assoc]
  | @limit m' i hleads hi =>
      have led := run_of_leads (hleads.behind earlier) limit 0 before
      have hi' : (m'.behind earlier).frame.code[(m'.behind earlier).frame.pc]? = some i := hi
      rw [Nat.zero_add] at led
      rw [led, run, settle_of_some hi']
      simp only [reported, Nat.zero_add, Nat.add_assoc]
      rfl

/-! ## Open calls -/

/-- **The open calls are counted**: those of the frames above the first one, on top of `base`. -/
def Counted (base : Nat) (m : Machine) : Prop := m.world.depth = base + m.callers.length

variable {c : ClassFile} {base : Nat} {m m' : Machine}

/-- A frame is opened only where there is room for one. -/
lemma room_of_call {method : Method} {receiver : Option Value} {args : List Value} {depth : Nat}
    {use : ResultUse} {f : Frame} (h : Frame.call method receiver args depth use = .ok f) :
    depth < maxFrames := by
  rw [Frame.call] at h
  split at h
  · simp at h
  · next room => exact Nat.lt_of_not_le room

/-- **A move keeps count of the open calls**, and opens one only where there is room. -/
lemma Counted.moves {k : Nat} (h : Counted base m) (hmove : Moves c m k m') :
    Counted base m' ∧ m'.world.depth ≤ max m.world.depth maxFrames := by
  rw [Counted] at h ⊢
  cases hmove with
  | fall _ hcallers =>
      rw [hcallers, List.length_cons] at h
      exact ⟨by simp only [World.depth_leave]; omega, by simp only [World.depth_leave]; omega⟩
  | @execute _ i control w hi hexec hfollow =>
      have counted := m.frame.advanced.depth_execute c i m.world
      rw [hexec] at counted
      cases Frame.execute_transition hexec with
      | next _ =>
          obtain rfl : _ = m' := by simpa [follow] using hfollow
          have counted : w.depth = m.world.depth := counted
          exact ⟨by simp only; omega, by simp only; omega⟩
      | apply _ _ _ hcall | member _ _ _ _ _ hcall =>
          obtain rfl : _ = m' := by simpa [follow] using hfollow
          have counted : w.depth = m.world.depth + 1 := counted
          have room := room_of_call hcall
          exact ⟨by simp only [List.length_cons]; omega, by simp only; omega⟩
      | leave _ =>
          have counted : w.depth = m.world.depth := counted
          cases hcallers : m.callers with
          | nil => simp [follow, hcallers] at hfollow
          | cons caller callers =>
              simp only [follow, hcallers, Except.ok.injEq] at hfollow
              subst hfollow
              rw [hcallers, List.length_cons] at h
              constructor <;> simp only [World.depth_leave] <;> omega

lemma Counted.leads {n : Nat} (h : Counted base m) (hleads : Leads c m n m') : Counted base m' :=
  hleads.preserves (fun hm hmove => (hm.moves hmove).1) h

lemma Counted.room {n : Nat} (h : Counted base m) (hroom : m.world.depth ≤ maxFrames)
    (hleads : Leads c m n m') : m'.world.depth ≤ maxFrames := by
  induction hleads with
  | refl => exact hroom
  | move hmove _ ih =>
      obtain ⟨counted, grown⟩ := h.moves hmove
      exact ih counted (by omega)

/-- Where a run stops, the calls of its frames have been left. -/
lemma Counted.stops (h : Counted base m) {k : Nat} {result : Except Fault Outcome} {w : World}
    (hstops : Stops c m k result w) : w.depth = base := by
  rw [Counted] at h
  cases hstops with
  | @fault i e w hi hexec =>
      have counted := m.frame.advanced.depth_execute c i m.world
      rw [hexec] at counted
      have counted : w.depth = m.world.depth := counted
      simp only [World.depth_leave]
      omega
  | @exit i control w outcome hi hexec hfollow =>
      have counted := m.frame.advanced.depth_execute c i m.world
      rw [hexec] at counted
      cases control with
      | next _ | enter _ _ => simp [follow] at hfollow
      | leave _ _ =>
          have counted : w.depth = m.world.depth := counted
          cases hcallers : m.callers with
          | nil => simpa [counted, hcallers] using h
          | cons caller callers => simp [follow, hcallers] at hfollow
  | fall _ hcallers => simpa [hcallers] using h

/-- **However a run ends, it has left every call that it opened.** -/
lemma Counted.run (h : Counted base m) (limit budget taken : Nat) :
    (run c limit budget taken m).world.depth = base := by
  have ended := run_ends c limit budget taken m
  generalize Machine.run c limit budget taken m = e at ended
  cases ended with
  | stops hleads hstops _ => exact (h.leads hleads).stops hstops
  | @limit m' _ hleads _ =>
      have counted : m'.world.depth = base + m'.callers.length := h.leads hleads
      simp only [World.depth_leave]
      omega

/-- **A run overflows only where as many calls are open as may be.** -/
lemma Counted.full (h : Counted base m) (hroom : m.world.depth ≤ maxFrames) {k frames : Nat}
    {w : World} (hstops : Stops c m k (.error (.stackOverflow frames)) w) :
    frames = maxFrames ∧ base + m.callers.length = maxFrames := by
  cases hstops with
  | @fault i _ _ _ hexec =>
      have arising := m.frame.advanced.arising_execute c m.world i
      rw [hexec] at arising
      obtain ⟨rfl, full⟩ : frames = maxFrames ∧ maxFrames ≤ m.world.depth := arising _ rfl
      rw [Counted] at h
      exact ⟨rfl, by omega⟩

end Machine

/-! ## Sessions -/

namespace Session

/-- **The sessions that come of a fresh one by requests**, whether they succeeded or failed.  In
between, the heap may be prepared for the next request. -/
inductive History (c : ClassFile) (limit : Nat) : Session → Prop
  | fresh (heap : Heap) : History c limit (fresh c { heap } limit)
  | answer {s : Session} (request : Request) : History c limit s →
      History c limit (s.answer request).2
  | prepare {s : Session} (heap : Heap) : History c limit s →
      History c limit { s with world := { s.world with heap } }

variable {c : ClassFile} {limit : Nat} {s : Session} {request : Request}

lemma start_keeps (s : Session) (calls : Nat) (frame : Except Fault Frame) :
    (s.start calls frame).2.classFile = s.classFile ∧
      (s.start calls frame).2.stepLimit = s.stepLimit := by
  cases frame <;> exact ⟨rfl, rfl⟩

/-- The first state of a run has counted the call it is, if it is one. -/
lemma counted_opening {first : Machine} (h : s.opening request = .ok first) :
    Machine.Counted (s.world.depth + request.calls) first := by
  obtain ⟨frame, -, rfl⟩ := opening_eq_ok.1 h
  rfl

lemma depth_first_le {first : Machine} (h : s.opening request = .ok first)
    (idle : s.world.depth = 0) : first.world.depth ≤ maxFrames := by
  obtain ⟨frame, -, rfl⟩ := opening_eq_ok.1 h
  cases request <;> simp [idle, Request.calls, maxFrames]

/-- **However a request ends, as many calls are open as before it.** -/
lemma depth_answer (s : Session) (request : Request) :
    (s.answer request).2.world.depth = s.world.depth := by
  cases hfirst : s.opening request with
  | error e => rw [answer_of_error hfirst]
  | ok first =>
      rw [answer_of_opening hfirst]
      simp [(counted_opening hfirst).run]

/-- A session keeps its class and its limit. -/
lemma History.keeps (h : History c limit s) : s.classFile = c ∧ s.stepLimit = limit := by
  induction h with
  | fresh heap => exact ⟨rfl, rfl⟩
  | @answer s request _ ih =>
      rw [answer_eq_start]
      obtain ⟨hclass, hlimit⟩ := s.start_keeps request.calls (s.firstFrame request)
      exact ⟨hclass.trans ih.1, hlimit.trans ih.2⟩
  | prepare _ _ ih => exact ih

/-- Between requests no call is open. -/
lemma History.idle (h : History c limit s) : s.world.depth = 0 := by
  induction h with
  | fresh heap => rfl
  | @answer s request _ ih => rw [depth_answer, ih]
  | prepare _ _ ih => exact ih

/-- The first frame of a run depends on the class and on the calls that are open. -/
lemma firstFrame_congr {s s' : Session} (hclass : s.classFile = s'.classFile)
    (hdepth : s.world.depth = s'.world.depth) (request : Request) :
    s.firstFrame request = s'.firstFrame request := by
  cases request <;> simp only [firstFrame, hclass, hdepth]

open Machine in
/-- **A request of a session and the same request by itself.** -/
lemma ending_answer (s : Session) (request : Request) :
    let alone := ending
      ((fresh s.classFile { s.world with printed := #[] } (s.stepLimit - s.steps)).answer request)
    ending (s.answer request) =
      ⟨reported s.stepLimit alone.result, alone.world.behind s.world.printed,
        s.steps + alone.steps⟩ := by
  intro alone
  have hframe : s.firstFrame request
      = (fresh s.classFile { s.world with printed := #[] }
          (s.stepLimit - s.steps)).firstFrame request := firstFrame_congr rfl rfl request
  cases hfirst : s.firstFrame request with
  | error e =>
      have halone : alone = ⟨.error e, { s.world with printed := #[] }, 0⟩ :=
        ending_of_error (opening_eq_error.2 (hframe.symm.trans hfirst))
      have unlimited : Unlimited (.error e : Except Fault Outcome) := by
        rintro limit ⟨⟩
        simpa [Fault.arises] using firstFrame_error hfirst
      rw [halone, answer_of_error (opening_eq_error.2 hfirst), reported_of_unlimited unlimited]
      simp [ending, World.behind]
  | ok frame =>
      let first : Machine :=
        { frame, world := World.enter { s.world with printed := #[] } request.calls }
      have halone : alone = (run s.classFile (s.stepLimit - s.steps) (s.stepLimit - s.steps) 0
          first).leave request.calls :=
        ending_of_opening (opening_eq_ok.2 ⟨frame, hframe.symm.trans hfirst, rfl⟩)
      have behind : first.behind s.world.printed
          = { frame, world := s.world.enter request.calls } := by
        simp [first, Machine.behind, World.behind, World.enter]
      have resumed := run_resumed s.classFile s.world.printed s.stepLimit
        (s.stepLimit - s.steps) (s.stepLimit - s.steps) s.steps first
      rw [behind] at resumed
      rw [answer_of_opening (opening_eq_ok.2 ⟨frame, hfirst, rfl⟩), resumed, halone]
      rfl

/-- **A request that overflows the stack has filled it.** -/
lemma full_of_stackOverflow (idle : s.world.depth = 0) {frames : Nat}
    (h : (s.answer request).1 = .error (.stackOverflow frames)) :
    frames = maxFrames ∧ ∃ first n m, s.opening request = .ok first ∧
      Machine.Leads s.classFile first n m ∧ request.calls + m.callers.length = maxFrames := by
  cases hfirst : s.opening request with
  | error e =>
      rw [answer_of_error hfirst] at h
      obtain rfl : e = .stackOverflow frames := by simpa using h
      rcases firstFrame_error (opening_eq_error.1 hfirst) with hentry | ⟨-, full⟩
      · simp at hentry
      · simp [idle, maxFrames] at full
  | ok first =>
      rw [answer_of_opening hfirst] at h
      have counted := counted_opening hfirst
      rw [idle, Nat.zero_add] at counted
      have room := depth_first_le hfirst idle
      have ended := Machine.run_ends s.classFile s.stepLimit (s.stepLimit - s.steps) s.steps first
      generalize Machine.run s.classFile s.stepLimit (s.stepLimit - s.steps) s.steps first = e
        at ended h
      cases ended with
      | @stops n k m result w hleads hstops _ =>
          obtain rfl : result = .error (.stackOverflow frames) := h
          obtain ⟨hframes, full⟩ := (counted.leads hleads).full (counted.room room hleads) hstops
          exact ⟨hframes, first, n, m, rfl, hleads, full⟩
      | limit _ _ => simp at h

end Session

open Session Machine in
/-- **Requests of one session do not leak into each other.**  Ask a session for anything, after any
requests, finished or failed.  It ends as on a fresh session of the same class with the same heap
and as many steps as are left: with the same result or fault, where a limit that is exceeded is
reported as the session's own, the same heap, its own lines after the earlier ones, and as many
further steps.  No call is open before the request or after it, and in each state of it those that
count as open are its own, so a stack that overflows has been filled by it alone. -/
theorem answer_isolated {c : ClassFile} {limit : Nat} {s : Session} (h : History c limit s)
    (request : Request) :
    let alone := ending ((fresh c { heap := s.world.heap } (limit - s.steps)).answer request)
    let again := ending (s.answer request)
    again.result = reported limit alone.result ∧
      again.world.heap = alone.world.heap ∧
      again.world.printed = s.world.printed ++ alone.world.printed ∧
      again.steps = s.steps + alone.steps ∧
      s.world.depth = 0 ∧ again.world.depth = 0 ∧
      (∀ first, s.opening request = .ok first → ∀ n m, Leads c first n m →
        m.world.depth = request.calls + m.callers.length ∧ m.world.depth ≤ maxFrames) ∧
      ∀ frames, again.result = .error (.stackOverflow frames) → frames = maxFrames ∧
        ∃ first n m, s.opening request = .ok first ∧ Leads c first n m ∧
          request.calls + m.callers.length = maxFrames := by
  intro alone again
  obtain ⟨rfl, rfl⟩ := h.keeps
  have idle := h.idle
  have same : { s.world with printed := #[] } = ({ heap := s.world.heap } : World) := by
    simp [idle]
  have compared := s.ending_answer request
  rw [same] at compared
  have compared : again = ⟨reported s.stepLimit alone.result,
      alone.world.behind s.world.printed, s.steps + alone.steps⟩ := compared
  refine ⟨congrArg End.result compared, congrArg (·.world.heap) compared,
    congrArg (·.world.printed) compared, congrArg End.steps compared, idle,
    (s.depth_answer request).trans idle, ?_, ?_⟩
  · intro first hfirst n m hleads
    have counted := counted_opening hfirst
    rw [idle, Nat.zero_add] at counted
    exact ⟨counted.leads hleads, counted.room (depth_first_le hfirst idle) hleads⟩
  · intro frames hoverflow
    exact full_of_stackOverflow idle hoverflow

/-- A class whose entry point prints a line and then calls a method that divides by zero. -/
def failingClass : ClassFile :=
  { name := "Main", superName := ClassName.object
    methods := [
      { name := "main", descriptor := "([Ljava/lang/String;)V", isStatic := true
        code := #[.getStatic consoleField, .ldc (.int 7), .callVirtual (.println .int),
          .invoke .static ⟨"Main", "divide", "()V"⟩, .ret] },
      { name := "divide", descriptor := "()V", isStatic := true
        code := #[.ldc (.int 1), .zero, .arith .div, .ret] }] }

open Session in
/-- The first of two requests fails inside a call; the second is cut where the steps of both exceed
the limit. -/
theorem answer_isolated_failingClass :
    let first := (fresh failingClass {} 12).answer .main
    let s := first.2
    let alone := ending ((fresh failingClass { heap := s.world.heap } (12 - s.steps)).answer .main)
    History failingClass 12 s ∧ first.1 = .error .divisionByZero ∧ s.steps = 7 ∧
      s.world.printed = #["7"] ∧ alone.result = .error (.stepLimit 5) ∧
      (ending (s.answer .main)).result = reported 12 alone.result ∧
      (ending (s.answer .main)).world.printed = s.world.printed ++ alone.world.printed ∧
      (ending (s.answer .main)).steps = s.steps + alone.steps ∧ s.world.depth = 0 := by
  intro first s alone
  have history : History failingClass 12 s := .answer .main (.fresh {})
  obtain ⟨result, -, printed, steps, idle, -⟩ := answer_isolated history .main
  exact ⟨history, by rfl, by rfl, by rfl, by rfl, result, printed, steps, idle⟩

end StackBackend
