import StackBackend.Proofs.Machine.AnalysisSound
import StackBackend.Proofs.Machine.Grounded
import StackBackend.Proofs.Storage.Methods
import StackBackend.Proofs.Typing.Programs

/-!
# Lists never share storage

A list is an object around an array.  The array behind a list literal stands in a slot of the frame
before the list is there, and stays in it afterwards; still no two lists ever have the same array,
and no list changes but by an assignment to one of its elements.

* `Machine.Yields` — what one move, or the end of the run, makes of the world;
* `sound_of_leads` — every state of a run of a method, on values that are there, is sound;
* `lists_unshared` — what that means for lists.
-/

namespace StackBackend

open Heap Lowering Machine

/-! ## Lists -/

/-- **The object at `l` is a list of some items**, around the array at `b`. -/
def Heap.Lists (h : Heap) (l b : Nat) (items : Array Value) : Prop :=
  h.get? l = some (.list (.ref b)) ∧ h.get? b = some (.array items)

namespace Heap

variable {h h' : Heap} {l b : Nat} {items : Array Value}

lemma Lists.of_kept (hl : h.Lists l b items) {hidden : Set Nat} (hk : Kept hidden h h') :
    ∃ items', h'.Lists l b items' ∧ items'.size = items.size := by
  obtain ⟨items', hitems, hsize⟩ := hk.sizes hl.1 hl.2
  exact ⟨items', ⟨hk.fixed hl.1 rfl, hitems⟩, hsize⟩

/-- A list keeps its items, unless a list around the same array is assigned to. -/
lemma Lists.of_turns (hl : h.Lists l b items) {target : Value} (ht : Turns ∅ target h h') :
    ∃ items', h'.Lists l b items' ∧ items'.size = items.size ∧
      (items' = items ∨ ∃ l', target = .ref l' ∧ h.get? l' = some (.list (.ref b))) := by
  rcases ht.calm hl.1 hl.2 with hsame | haround
  · exact ⟨items, ⟨ht.kept.fixed hl.1 rfl, hsame⟩, rfl, .inl rfl⟩
  · obtain ⟨items', hlists, hsize⟩ := hl.of_kept ht.kept
    exact ⟨items', hlists, hsize, .inr (object?_ok haround)⟩

end Heap

/-- Only its own operand names `setElement`. -/
lemma LibraryMethod.eq_ref_of_listSet {method : MethodRef}
    (h : LibraryMethod.resolve? method = some .listSet) : method = LibraryMethod.listSet.ref := by
  rw [resolve?] at h
  split at h
  · simp at h
  · simpa [eq_comm] using List.find?_some h

namespace Machine

/-- The next instruction is `setElement` on the list at `l`. -/
def Assigns (m : Machine) (l : Nat) : Prop :=
  ∃ kind v index rest, m.frame.code[m.frame.pc]? = some (.invoke kind LibraryMethod.listSet.ref) ∧
    m.frame.stack = v :: index :: .ref l :: rest

/-- What one move, or the end of the run, makes of the world. -/
inductive Yields (c : ClassFile) (m : Machine) : World → Prop
  | moves {m' : Machine} {k : Nat} : Moves c m k m' → Yields c m m'.world
  | stops {w : World} {k : Nat} {result : Except Fault Outcome} : Stops c m k result w →
      Yields c m w

variable {c : ClassFile} {m m' : Machine} {k : Nat} {w : World}

lemma assigns_of_assigned {i : Instruction} (hi : m.frame.code[m.frame.pc]? = some i) {l : Nat}
    (h : m.frame.assigned i = .ref l) : m.Assigns l := by
  cases i with
  | invoke kind method =>
      rw [Frame.assigned] at h
      split at h
      · next hmethod =>
          obtain rfl := LibraryMethod.eq_ref_of_listSet hmethod
          rcases hstack : m.frame.stack with _ | ⟨v, _ | ⟨index, _ | ⟨this, rest⟩⟩⟩
          · simp [hstack] at h
          · simp [hstack] at h
          · simp [hstack] at h
          · obtain rfl : this = .ref l := by simpa [hstack] using h
            exact ⟨kind, v, index, rest, hi, hstack⟩
      · cases h
  | _ => cases h

/-- **What the next move does to the heap** of a sound state. -/
lemma Sound.yields (hsound : Sound c m) (h : Yields c m w) :
    ∃ target, Turns ∅ target m.world.heap w.heap ∧ ∀ l, target = .ref l → m.Assigns l := by
  have sealed : m.world.heap.Sealed ∅ := ⟨hsound.grounded, hsound.grounded, by simp⟩
  have executed : ∀ {i result w}, m.frame.code[m.frame.pc]? = some i →
      m.frame.advanced.execute c i m.world = (result, w) →
      ∃ target, Turns ∅ target m.world.heap w.heap ∧ ∀ l, target = .ref l → m.Assigns l := by
    intro i result w hi hexec
    have turned := hsound.turns i hi
    rw [hexec] at turned
    exact ⟨_, turned, fun l => assigns_of_assigned hi⟩
  have unchanged : ∃ target, Turns ∅ target m.world.heap m.world.heap ∧
      ∀ l, target = .ref l → m.Assigns l := ⟨.null, turns_refl sealed, by simp⟩
  cases h with
  | moves hmove =>
      cases hmove with
      | execute hi hexec hfollow =>
          rw [(world_follow hfollow).1]
          exact executed hi hexec
      | fall _ _ => exact unchanged
  | stops hstops =>
      cases hstops with
      | fault hi hexec =>
          have turned := executed hi hexec
          exact turned
      | exit hi hexec _ => exact executed hi hexec
      | fall _ _ => exact unchanged

/-- **What a run keeps** if all its states are sound. -/
lemma kept_of_leads (h : Leads c m k m') (hsound : ∀ n m'', Leads c m n m'' → Sound c m'') :
    Kept ∅ m.world.heap m'.world.heap ∧ (m.world.heap.Orderly → m'.world.heap.Orderly) := by
  induction h with
  | refl => exact ⟨.refl .., id⟩
  | move hmove _ ih =>
      obtain ⟨target, turned, -⟩ := (hsound 0 _ .refl).yields (.moves hmove)
      obtain ⟨hkept, horderly⟩ := ih fun n m'' hleads => hsound _ _ (.move hmove hleads)
      exact ⟨turned.kept.trans hkept, fun h => horderly (turned.orderly h)⟩

end Machine

/-! ## Runs of a class -/

section Runs

variable {c : ClassFile} {session : Session} {request : Request} {first : Machine} {n : Nat}
  {m : Machine}

/-- A request opens a method with values that are there, unless it is for bare code. -/
lemma exists_call (hclass : session.classFile = c) (hmethod : request.calls = 1)
    (hrequest : request.Grounded session.world.heap) {frame : Frame}
    (hframe : session.firstFrame request = .ok frame) :
    ∃ method ∈ c.methods, ∃ receiver args,
      Frame.call method receiver args session.world.depth .ifAny = .ok frame ∧
        ∀ v ∈ receiver.getD .null :: args, session.world.heap.Sees ∅ v := by
  subst hclass
  cases request with
  | main =>
      rw [Session.firstFrame] at hframe
      split at hframe
      · cases hframe
      · next method hmethod =>
          exact ⟨method, List.mem_of_find?_eq_some hmethod, none, [.null], hframe, by simp⟩
  | invoke receiver name args =>
      obtain ⟨method, hmethod, hcall⟩ := bind_ok hframe
      exact ⟨method, (Frame.resolve_ok hmethod).1, some receiver, args, hcall, hrequest⟩
  | fragment _ _ => simp [Request.calls] at hmethod

/-- **Every state of a run is sound.** -/
theorem sound_of_leads (hspares : ∀ n, c.SparesHidden n)
    (hapart : ∀ m : LibraryMethod, m.ref.owner ≠ c.name)
    (hclass : session.classFile = c) (hheap : session.world.heap.Guards ∅)
    (hmethod : request.calls = 1) (hrequest : request.Grounded session.world.heap)
    (hfirst : session.opening request = .ok first) (hleads : Leads c first n m) : Sound c m := by
  obtain ⟨frame, hframe, rfl⟩ := Session.opening_eq_ok.1 hfirst
  obtain ⟨method, hmethod, receiver, args, hcall, hgrounded⟩ :=
    exists_call hclass hmethod hrequest hframe
  obtain ⟨s, rfl, hcode, hcallers, -, hmachine⟩ := Typing.exists_site hapart hcall []
  rw [hmachine] at hleads
  let world := session.world.enter request.calls
  have sealed : world.heap.Sealed ∅ := ⟨hheap, hheap, by simp⟩
  let start : Point := ⟨0, [], method.entryLocals (receiver.getD .null) args, world⟩
  have started : start.Clear ∅ ∅ := Site.clear_entryLocals sealed hgrounded 0
  have returns := hspares n s ∅ start rfl ⟨method, hmethod, hcode⟩ rfl rfl started
  rcases returns n m (Nat.le_refl n) hleads with
    hregion | ⟨_, i, j, ⟨r, rfl, hleaving⟩, -, hrest, -⟩
  · exact hregion.1
  · obtain ⟨result, hreturn, hclear, -, -⟩ := hleaving
    cases hrest with
    | refl => exact Site.sound_atReturn hclear hreturn
    | move hmove _ => exact absurd hmove (Site.not_moves_atReturn hreturn hcallers)

/-- Lists have their arrays to themselves after a run, however the run ended. -/
lemma orderly_answer (horderly : session.world.heap.Orderly)
    (hsound : ∀ first, session.opening request = .ok first → ∀ n m,
      Leads session.classFile first n m → Sound session.classFile m) :
    (session.answer request).2.world.heap.Orderly := by
  cases hfirst : session.opening request with
  | error e =>
      rw [Session.answer_of_error hfirst]
      exact horderly
  | ok first =>
      obtain ⟨frame, -, hworld⟩ := Session.opening_eq_ok.1 hfirst
      have started : first.world.heap.Orderly := by
        rw [← hworld]
        exact horderly
      have along : ∀ {n m}, Leads session.classFile first n m → m.world.heap.Orderly :=
        fun hleads => (kept_of_leads hleads (hsound first hfirst)).2 started
      rw [Session.answer_of_opening hfirst]
      have ends := run_ends session.classFile session.stepLimit (session.stepLimit - session.steps)
        session.steps first
      generalize run session.classFile session.stepLimit (session.stepLimit - session.steps)
        session.steps first = e at ends
      cases ends with
      | stops hleads hstops _ =>
          obtain ⟨target, turned, -⟩ := (hsound first hfirst _ _ hleads).yields (.stops hstops)
          exact turned.orderly (along hleads)
      | limit hleads _ => exact along hleads

end Runs

/-! ## A program -/

section Tally

open Build

/-- The body of a function that counts up the first element of a list, and returns the list. -/
def tallyBody : List Stmt :=
  [assignIndex (ident "xs" (.list .int)) (int 0) .add (int 1), ret (some (ident "xs" (.list .int)))]

/-- The entry unit: a list is passed to the function, and a list literal is made of the result,
round after round. -/
def tallyMain : List Stmt :=
  [assign (ident "a" (.list .int)) .assign (list .int [int 7, int 2]),
   loop
     [assign (ident "b" (.list .int)) .assign (call "tally" [ident "a" (.list .int)] (.list .int)),
      branch (binary .gt (index (ident "b" (.list .int)) (int 0)) (int 8)) [exitLoop] [],
      assign (ident "a" (.list .int)) .assign
        (list .int [index (ident "b" (.list .int)) (int 0), int 2])],
   put (ident "b" (.list .int))]

/-- A program that makes, passes and changes lists. -/
def tallyProgram : CheckedProgram :=
  ({} : ProgramDraft).function "tally" [⟨"xs", .list .int⟩] (.list .int) tallyBody
    |>.finish tallyMain

end Tally

lemma orderly_empty : ({} : Heap).Orderly := by
  have absent : ∀ a : Nat, ({} : Heap).get? a = none := fun a => rfl
  exact ⟨fun ha => by simp [absent] at ha, fun ha => by simp [absent] at ha⟩

lemma guards_empty : ({} : Heap).Guards ∅ := by
  have absent : ∀ a : Nat, ({} : Heap).get? a = none := fun a => rfl
  exact fun a obj hobj => by simp [absent] at hobj

lemma opening_main {p : CheckedProgram} {config : Config} {c : ClassFile} {issued : Nat}
    (h : assemble p config = .ok (c, issued)) :
    ∃ first, ({ classFile := c } : Session).opening .main = .ok first := by
  obtain ⟨-, functions, shared, code, -, -, rfl⟩ := assemble_ok_iff.1 h
  exact ⟨_, rfl⟩

/-! ## Storage -/

/-- **Lists never share storage.**  In every state of a run of an assembled class, distinct lists
have distinct arrays; a list keeps its array and its length for the rest of the run; and one move,
or the end of the run, leaves its items as they are, unless it is `setElement` on that list. -/
theorem lists_unshared {p : CheckedProgram} {config : Config} {c : ClassFile} {issued : Nat}
    (h : assemble p config = .ok (c, issued))
    (hapart : ∀ m : LibraryMethod, m.ref.owner ≠ config.className) (session : Session)
    (request : Request) (hclass : session.classFile = c) (horderly : session.world.heap.Orderly)
    (hheap : session.world.heap.Guards ∅) (hmethod : request.calls = 1)
    (hrequest : request.Grounded session.world.heap) :
    ((session.answer request).2.world.heap.Orderly ∧
      (session.answer request).2.world.heap.Guards ∅) ∧
      ∀ first, session.opening request = .ok first →
        ∀ n m, Leads c first n m →
          (∀ l l' v v', m.world.heap.get? l = some (.list v) →
            m.world.heap.get? l' = some (.list v') → l ≠ l' → v ≠ v') ∧
          (∀ l v, m.world.heap.get? l = some (.list v) →
            ∃ b items, v = .ref b ∧ m.world.heap.Lists l b items) ∧
          ∀ l b items, m.world.heap.Lists l b items →
            (∀ k m', Leads c m k m' →
              ∃ items', m'.world.heap.Lists l b items' ∧ items'.size = items.size) ∧
            ∀ w, m.Yields c w → ∃ items', w.heap.Lists l b items' ∧ items'.size = items.size ∧
              (m.Assigns l ∨ items' = items) := by
  rw [← name_of_assemble h] at hapart
  have sound : ∀ first, session.opening request = .ok first → ∀ n m,
      Leads c first n m → Sound c m := fun first hfirst n m =>
    sound_of_leads (sparesHidden h) hapart hclass hheap hmethod hrequest hfirst
  refine ⟨⟨orderly_answer horderly (hclass ▸ sound), session.grounded_answer hheap hrequest⟩, ?_⟩
  intro first hfirst n m hleads
  have started : first.world.heap.Orderly := by
    obtain ⟨frame, -, rfl⟩ := Session.opening_eq_ok.1 hfirst
    exact horderly
  have here := sound first hfirst n m hleads
  have orderly := (kept_of_leads hleads (sound first hfirst)).2 started
  refine ⟨fun l l' v v' hl hl' hne hsame => hne (orderly.unshared hl (hsame ▸ hl')), ?_, ?_⟩
  · intro l v hl
    obtain ⟨b, items, rfl, hitems⟩ := orderly.backed hl
    exact ⟨b, items, rfl, hl, hitems⟩
  · intro l b items hlists
    refine ⟨fun k m' hmore => hlists.of_kept (kept_of_leads hmore fun j m'' hrest => ?_).1,
      fun w hyields => ?_⟩
    · exact sound first hfirst _ _ (hleads.trans hrest)
    · obtain ⟨target, turned, hassigns⟩ := here.yields hyields
      obtain ⟨items', hlists', hsize, hitems | ⟨l', htarget, hl'⟩⟩ := hlists.of_turns turned
      · exact ⟨items', hlists', hsize, .inr hitems⟩
      · obtain rfl := orderly.unshared hlists.1 hl'
        exact ⟨items', hlists', hsize, .inl (hassigns l htarget)⟩

theorem lists_unshared_tallyProgram :
    ∃ c issued first, assemble tallyProgram {} = .ok (c, issued) ∧
      ({ classFile := c } : Session).opening .main = .ok first ∧
      (∀ n m, Leads c first n m →
        (∀ l l' v v', m.world.heap.get? l = some (.list v) →
          m.world.heap.get? l' = some (.list v') → l ≠ l' → v ≠ v') ∧
        ∀ l b items, m.world.heap.Lists l b items →
          (∀ k m', Leads c m k m' →
            ∃ items', m'.world.heap.Lists l b items' ∧ items'.size = items.size) ∧
          ∀ w, m.Yields c w → ∃ items', w.heap.Lists l b items' ∧ items'.size = items.size ∧
            (m.Assigns l ∨ items' = items)) ∧
      (({ classFile := c } : Session).runMain.2.world.heap.Lists 2 1 #[.integer 7, .integer 2] ∧
        ({ classFile := c } : Session).runMain.2.world.heap.Lists 5 6
          #[.integer 8, .integer 2]) := by
  have made : ((assemble tallyProgram {}).toOption.map fun r =>
      [2, 1, 5, 6].map ({ classFile := r.1 } : Session).runMain.2.world.heap.get?)
        = some [some (.list (.ref 1)), some (.array #[.integer 7, .integer 2]),
          some (.list (.ref 6)), some (.array #[.integer 8, .integer 2])] := by
    decide +kernel
  cases h : assemble tallyProgram {} with
  | error e => simp [h, Except.toOption] at made
  | ok r =>
      obtain ⟨first, hfirst⟩ := opening_main h
      have unshared := (lists_unshared h apart_Main
        { classFile := r.1 } .main rfl orderly_empty guards_empty rfl trivial).2
      refine ⟨r.1, r.2, first, rfl, hfirst, fun n m hleads => ?_, ?_⟩
      · obtain ⟨hdistinct, -, hlists⟩ := unshared first hfirst n m hleads
        exact ⟨hdistinct, hlists⟩
      · rw [h] at made
        simpa [Except.toOption, Heap.Lists, and_assoc] using made

end StackBackend
