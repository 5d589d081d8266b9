import StackBackend.Proofs.Machine.Effect
import StackBackend.Proofs.Machine.Requests
import StackBackend.Proofs.StackProfile.Flow

/-!
# The depth analysis is sound for the machine

The analysis looks at code alone.  Here it is held against runs: in a class whose bodies it
accepts, every frame finds at every instruction exactly as many operands as the profile of its body
says, so no run fails for want of an operand or a label.

**The invariant.**  A frame is on track when its place and the height of its stack are an arrival
of its code (`OnTrack`).  A waiting caller has a stack of the height its call leaves, short of the
result; `AllOnTrack` says that it will be on track again once the result, or what stands for it, is
pushed, whatever the called method may return.

**From moves to sessions.**  `AllOnTrack.moves` shows that a move keeps the invariant, and
`Leads.preserves` carries it to every state of a run.  `analysis_sound` states the outcome for the
three kinds of runs a session offers.
-/

namespace StackBackend

open StackProfile

/-! ## Verified classes -/

/-- The analysis accepts a body, and its calls are those it knows the depths of. -/
structure Verifies (c : ClassFile) (code : Code) : Prop where
  profile : ∃ profile, analyze code = .ok profile
  links : ∀ i ∈ code, Links c i

/-- **A class that the analysis vouches for.**  Its name is none of the library's, so library calls
are not taken for calls of its own methods; its constructors return nothing. -/
structure VerifiedClass (c : ClassFile) : Prop where
  apart : ∀ m : LibraryMethod, m.ref.owner ≠ c.name
  bodies : ∀ m ∈ c.methods, Verifies c m.code
  constructors : ∀ m ∈ c.methods, m.name = constructorName → .retValue ∉ m.code

variable {c : ClassFile}

lemma Verifies.labels {code : Code} (h : Verifies c code) :
    ∃ labels, labelTable code = .ok labels := by
  obtain ⟨profile, hprofile⟩ := h.profile
  obtain ⟨labels, -, hlabels, -⟩ := analyze_ok hprofile
  exact ⟨labels, hlabels⟩

lemma VerifiedClass.located (h : VerifiedClass c) : Located c where
  apart := h.apart
  labels m hm := (h.bodies m hm).labels

/-! ## The invariant -/

/-- A frame is where its code can be with a stack of its height. -/
structure OnTrack (c : ClassFile) (f : Frame) : Prop where
  body : Verifies c f.code
  labels : labelTable f.code = .ok f.labels
  arrives : Arrives f.code f.labels ⟨f.pc, f.stack.length⟩

/-- **All frames of a run are on track**, the waiting ones as soon as they have their result. -/
def AllOnTrack (c : ClassFile) : List Frame → Frame → Prop
  | [], f => OnTrack c f
  | caller :: callers, f => OnTrack c f ∧
      ∀ result : Option Value, (result.isSome = true → .retValue ∈ f.code) →
        AllOnTrack c callers (caller.receive f.use result)

lemma AllOnTrack.onTrack {callers : List Frame} {f : Frame} (h : AllOnTrack c callers f) :
    OnTrack c f := by
  cases callers with
  | nil => exact h
  | cons caller callers => exact h.1

/-- Callers look at the body of a frame and at what is made of its result, at nothing else. -/
lemma AllOnTrack.replace {callers : List Frame} {f f' : Frame} (h : AllOnTrack c callers f)
    (hf : OnTrack c f') (hcode : f'.code = f.code) (huse : f'.use = f.use) :
    AllOnTrack c callers f' := by
  cases callers with
  | nil => exact hf
  | cons caller callers =>
      refine ⟨hf, fun result hresult => ?_⟩
      rw [huse]
      exact h.2 result (by rwa [hcode] at hresult)

lemma OnTrack.proceeds {f : Frame} (h : OnTrack c f) {i : Instruction}
    (hi : f.code[f.pc]? = some i) : Proceeds f.labels i f.stack.length := by
  obtain ⟨profile, hprofile⟩ := h.body.profile
  exact (bounded_of_arrives hprofile h.labels h.arrives hi).1

/-- A frame that goes on past an instruction stays on track. -/
lemma OnTrack.goes {f f' : Frame} (h : OnTrack c f) {i : Instruction}
    (hi : f.code[f.pc]? = some i) (hgoes : f.advanced.Goes i f') :
    OnTrack c f' := by
  refine ⟨hgoes.code ▸ h.body, ?_, ?_⟩
  · rw [hgoes.code, hgoes.labels]
    exact h.labels
  · rw [hgoes.code, hgoes.labels]
    refine h.arrives.step hi (h.proceeds hi) ⟨hgoes.height, ?_⟩
    exact hgoes.place

lemma OnTrack.enters {f : Frame} {m : Method} (hbody : Verifies c m.code) (h : f.Enters m) :
    OnTrack c f := by
  refine ⟨h.code ▸ hbody, h.code ▸ h.labels, ?_⟩
  rw [h.pc, h.stack]
  exact .start

/-- What an instruction of a frame on track leads to. -/
lemma OnTrack.effect (hc : VerifiedClass c) {f : Frame} (h : OnTrack c f) {i : Instruction}
    (hi : f.code[f.pc]? = some i) (w : World) :
    Mild (f.advanced.execute c i w).1 (f.advanced.Effect c i) := by
  obtain ⟨hpops, hlabels⟩ := h.proceeds hi
  exact Frame.execute_mild (f := f.advanced) hc.located hpops hlabels
    (h.body.links i (Array.mem_of_getElem? hi)) w

lemma OnTrack.fault (hc : VerifiedClass c) {f : Frame} (h : OnTrack c f) {i : Instruction}
    (hi : f.code[f.pc]? = some i) {w w' : World} {e : Fault}
    (hexec : f.advanced.execute c i w = (.error e, w')) : e.isStructural = false := by
  have heffect := h.effect hc hi w
  rw [hexec] at heffect
  exact heffect

/-- **A move keeps all frames on track.** -/
lemma AllOnTrack.moves (hc : VerifiedClass c) {m m' : Machine} {k : Nat}
    (h : AllOnTrack c m.callers m.frame) (hmove : Machine.Moves c m k m') :
    AllOnTrack c m'.callers m'.frame := by
  cases hmove with
  | fall hnone hcallers =>
      rw [hcallers] at h
      exact h.2 none (by simp)
  | execute hi hexec hfollow =>
      have heffect := h.onTrack.effect hc hi m.world
      rw [hexec] at heffect
      cases heffect with
      | next hgoes =>
          obtain rfl : _ = m' := by simpa [Machine.follow] using hfollow
          exact h.replace (h.onTrack.goes hi hgoes) hgoes.code hgoes.use
      | @leave f' result huse hresult =>
          cases hcallers : m.callers with
          | nil => simp [Machine.follow, hcallers] at hfollow
          | cons caller callers =>
              rw [hcallers] at h
              simp only [Machine.follow, hcallers, Except.ok.injEq] at hfollow
              subst hfollow
              rw [huse]
              refine h.2 result fun hsome => ?_
              exact Array.mem_of_getElem? (hresult hsome ▸ hi)
      | @call caller callee method hmem henters huse hgoes =>
          obtain rfl : _ = m' := by simpa [Machine.follow] using hfollow
          refine ⟨.enters (hc.bodies method hmem) henters, fun result _ => ?_⟩
          have received : ∃ v, caller.receive callee.use result = caller.push v := by
            rw [huse]
            cases result <;> exact ⟨_, rfl⟩
          obtain ⟨v, hv⟩ := received
          rw [hv]
          exact h.replace (h.onTrack.goes hi (hgoes v)) (hgoes v).code (hgoes v).use
      | @construct caller callee method hmem hname henters huse hgoes =>
          obtain rfl : _ = m' := by simpa [Machine.follow] using hfollow
          refine ⟨.enters (hc.bodies method hmem) henters, fun result hresult => ?_⟩
          cases result with
          | some v =>
              have returns := hresult rfl
              rw [henters.code] at returns
              exact absurd returns (hc.constructors method hmem hname)
          | none =>
              rw [huse]
              exact h.replace (h.onTrack.goes hi hgoes) hgoes.code hgoes.use

/-- What being on track says in terms of the profile of the body. -/
lemma OnTrack.depth {f : Frame} (h : OnTrack c f) :
    ∃ profile, analyze f.code = .ok profile ∧
      (∀ i, f.code[f.pc]? = some i → profile.depths[f.pc]? = some (some f.stack.length) ∧
        f.stack.length ≤ profile.maxDepth) ∧
      (f.code[f.pc]? = none → profile.exitDepth = some f.stack.length) := by
  obtain ⟨profile, hprofile⟩ := h.body.profile
  have hdepth := (depthAt_iff_arrives hprofile h.labels).2 h.arrives
  obtain ⟨-, -, -, -, -, hlength, -, -⟩ := analyze_ok hprofile
  refine ⟨profile, hprofile, fun i hi => ⟨?_, ?_⟩, fun hnone => ?_⟩
  · have room : f.pc < profile.depths.length := hlength ▸ place_lt_of_getElem? hi
    rwa [depthAt, List.getElem?_append_left room, Option.join_eq_some_iff] at hdepth
  · exact (bounded_of_arrives hprofile h.labels h.arrives hi).2.1
  · have hplace : f.pc = f.code.size := by
      have := h.arrives.place_le h.labels
      have := Array.getElem?_eq_none_iff.1 hnone
      simp only at *
      omega
    rw [← depthAt_size hprofile, ← hplace]
    exact hdepth

/-- The run ends, if in a fault, then in one that the analysis does not rule out. -/
lemma AllOnTrack.run_mild (hc : VerifiedClass c) {m : Machine}
    (h : AllOnTrack c m.callers m.frame) (limit budget taken : Nat) :
    Harmless (Machine.run c limit budget taken m).result := by
  have ended := Machine.run_ends c limit budget taken m
  generalize Machine.run c limit budget taken m = e at ended
  cases ended with
  | limit _ _ => rfl
  | stops hleads hstops _ =>
      have hlast := hleads.preserves (fun hm hmove => AllOnTrack.moves hc hm hmove) h
      cases hstops with
      | fault hi hexec =>
          exact hlast.onTrack.fault hc hi hexec
      | exit _ _ _ | fall _ _ => trivial

/-! ## Sessions -/

/-- Bare code has to be accepted like a body; methods are, by their class. -/
def Request.Verified (c : ClassFile) : Request → Prop
  | .fragment code _ => Verifies c code
  | _ => True

/-- The first frame of a run is on track, and there is one unless a method is missing. -/
lemma Session.firstFrame_mild {s : Session} (hc : VerifiedClass s.classFile) {request : Request}
    (hrequest : request.Verified s.classFile) :
    Mild (s.firstFrame request) (OnTrack s.classFile) := by
  have called : ∀ m ∈ s.classFile.methods, ∀ receiver args,
      Mild (Frame.call m receiver args s.world.depth .ifAny) (OnTrack s.classFile) := by
    intro m hm receiver args
    obtain ⟨labels, hlabels⟩ := (hc.bodies m hm).labels
    simp only [Frame.call, hlabels]
    split
    · rfl
    · exact .enters (hc.bodies m hm) ⟨rfl, hlabels, rfl, rfl⟩
  cases request with
  | main =>
      simp only [firstFrame]
      split
      · rfl
      · next m hm => exact called m (List.mem_of_find?_eq_some hm) _ _
  | invoke receiver method args =>
      simp only [firstFrame, ClassFile.resolve]
      split
      · next m hm => exact called m (List.mem_of_find?_eq_some hm) _ _
      · rfl
  | fragment code locals =>
      obtain ⟨labels, hlabels⟩ := hrequest.labels
      simp only [firstFrame, Frame.fragment, hlabels]
      exact ⟨hrequest, hlabels, .start⟩

/-- **The depth analysis is sound for the machine.**  In a session on a verified class no run fails
for want of an operand or a label, whatever the heap, the arguments and the step limit.  The states
of a run are those its first state leads to, as far as the limit allows; in each of them the
instruction about to be carried out finds as many operands as the profile of its body says, at most
the greatest depth, and a frame without instructions left holds as many as the profile says for its
end. -/
theorem analysis_sound {s : Session} (hc : VerifiedClass s.classFile) (request : Request)
    (hrequest : request.Verified s.classFile) :
    (∀ e, (s.answer request).1 = .error e → e.isStructural = false) ∧
      ∀ first, s.opening request = .ok first →
        ∀ n m, Machine.Leads s.classFile first n m →
          (n ≤ s.stepLimit - s.steps → (s.answer request).1 =
            (Machine.run s.classFile s.stepLimit (s.stepLimit - s.steps - n) (s.steps + n)
              m).result) ∧
          ∃ profile, analyze m.frame.code = .ok profile ∧
            (∀ i, m.frame.code[m.frame.pc]? = some i →
              profile.depths[m.frame.pc]? = some (some m.frame.stack.length) ∧
                m.frame.stack.length ≤ profile.maxDepth) ∧
            (m.frame.code[m.frame.pc]? = none → profile.exitDepth = some m.frame.stack.length) := by
  have hframe := Session.firstFrame_mild hc hrequest
  have started : ∀ {first : Machine}, s.opening request = .ok first →
      AllOnTrack s.classFile first.callers first.frame := by
    intro first hfirst
    obtain ⟨frame, hok, rfl⟩ := Session.opening_eq_ok.1 hfirst
    rw [hok] at hframe
    exact hframe
  constructor
  · intro e he
    cases hfirst : s.opening request with
    | error e' =>
        obtain rfl : e' = e := by simpa [Session.answer_of_error hfirst] using he
        rw [Session.opening_eq_error.1 hfirst] at hframe
        exact hframe
    | ok first =>
        rw [Session.answer_of_opening hfirst] at he
        exact ((started hfirst).run_mild hc s.stepLimit _ s.steps).error he
  · intro first hfirst n m hleads
    have reached := hleads.preserves (P := fun m => AllOnTrack s.classFile m.callers m.frame)
      (fun hm hmove => hm.moves hc hmove) (started hfirst)
    refine ⟨fun hn => ?_, reached.onTrack.depth⟩
    have passed := Machine.run_of_leads hleads s.stepLimit (s.stepLimit - s.steps - n) s.steps
    rw [Nat.sub_add_cancel hn] at passed
    rw [Session.answer_of_opening hfirst]
    exact congrArg Machine.End.result passed

/-- A class whose entry point makes an instance, and whose constructor prints a number. -/
def countingClass : ClassFile :=
  { name := "Main", superName := ClassName.object
    methods := [
      { name := "main", descriptor := "([Ljava/lang/String;)V", isStatic := true
        code := #[.new "Main", .invoke .special ⟨"Main", constructorName, "()V"⟩, .ret] },
      { name := constructorName, descriptor := "()V"
        code := #[.load 0, .construct .objectInit, .getStatic consoleField, .ldc (.int 1),
          .callVirtual (.println .int), .ret] }] }

theorem analysis_sound_countingClass :
    VerifiedClass countingClass ∧ Request.Verified countingClass .main ∧
      (∀ e, ((⟨countingClass, 100, {}, 0⟩ : Session).answer .main).1 = .error e →
        e.isStructural = false) ∧
      ∃ first, (⟨countingClass, 100, {}, 0⟩ : Session).opening .main = .ok first ∧
        ∀ n m, Machine.Leads countingClass first n m →
          ∃ profile, analyze m.frame.code = .ok profile ∧
            (m.frame.code[m.frame.pc]? = none → profile.exitDepth = some m.frame.stack.length) := by
  have hc : VerifiedClass countingClass := by
    refine ⟨?_, ?_, ?_⟩
    · intro m
      cases m with
      | println what => cases what <;> decide
      | _ => decide
    · intro m hm
      simp only [countingClass, List.mem_cons, List.not_mem_nil, or_false] at hm
      rcases hm with rfl | rfl
      · refine ⟨⟨_, rfl⟩, ?_⟩
        simp [Links, countingClass]
      · refine ⟨⟨_, rfl⟩, ?_⟩
        simp [Links, countingClass, Instruction.construct, Instruction.callVirtual]
    · simp [countingClass, constructorName, Instruction.construct, Instruction.callVirtual]
  refine ⟨hc, trivial, (analysis_sound hc .main trivial).1, _, rfl, ?_⟩
  intro n m hleads
  obtain ⟨-, profile, hprofile, -, hexit⟩ :=
    (analysis_sound (s := ⟨countingClass, 100, {}, 0⟩) hc .main trivial).2 _ rfl n m hleads
  exact ⟨profile, hprofile, hexit⟩

end StackBackend
