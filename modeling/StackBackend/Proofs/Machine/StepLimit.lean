import StackBackend.Proofs.Machine.AnalysisSound
import StackBackend.Proofs.Machine.Transitions

/-!
# What a step limit does to a run

A run is a sequence of moves, and the limit is looked at before each instruction.  So a limit can
only cut the sequence short: below it nothing changes, and past it the run ends where the limit
stands.

**Only the counter reports a limit.**  `Fault.arises` says which faults an instruction can end in
(`arising_execute`).  `Fault.stepLimit` is none of them, so a run that reports it has used up its
steps, and has counted one more (`run_counts`).

**One step need not end.**  The limit is not looked at inside an instruction, and a call of the
library that follows references without end breaks the machine.  `Frame.Unending` says which
instructions do that, `run_aborted_iff` which runs.

**Two limits.**  `run_truncates` compares the runs of one state under two limits, and
`answer_truncates` does so for everything a session can be asked for.  Every request comes to its
end, by a sequence of moves that costs no more steps than the limit allows, unless it meets such an
instruction on its way; `answer_knotClass` is one that does, under any limit that lets it come so
far.
-/

namespace StackBackend

/-! ## Which faults instructions report -/

/-- The faults that an instruction can end in, inside `depth` open calls.  An exceeded step limit
and a missing entry point are none of them, a stack overflows only if it is full, and the machine
breaks only on an `endless` instruction. -/
def Fault.arises (depth : Nat) (endless : Prop) : Fault → Prop
  | stepLimit _ | noEntryPoint => False
  | stackOverflow frames => frames = maxFrames ∧ maxFrames ≤ depth
  | aborted => endless
  | _ => True

/-- A computation that fails, if at all, as an instruction inside `depth` open calls can. -/
def Arising (depth : Nat) (endless : Prop) {α : Type} (x : Except Fault α) : Prop :=
  ∀ e, x = .error e → e.arises depth endless

section

variable {α β : Type} {depth : Nat} {endless : Prop} {x : Except Fault α}

lemma arising_ok (a : α) : Arising depth endless (.ok a : Except Fault α) := by
  intro e h
  simp at h

lemma Arising.bind {f : α → Except Fault β} (hx : Arising depth endless x)
    (hf : ∀ a, Arising depth endless (f a)) : Arising depth endless (x >>= f) := by
  cases x with
  | error e =>
      intro e' h
      exact hx e' (by simpa [Bind.bind, Except.bind] using h)
  | ok a => exact hf a

lemma Arising.error (hx : Arising depth endless x) {e : Fault} (h : x = .error e) :
    Arising depth endless (.error e : Except Fault β) := by
  intro e' he
  rw [Except.error.injEq] at he
  exact hx e' (by rw [h, he])

/-- Faults of values can arise everywhere. -/
lemma Tame.arising {Q : α → Prop} (hx : Tame endless x Q) : Arising depth endless x := by
  rintro e rfl
  have values : e.IsOfValues endless := hx.error rfl
  cases e <;> simp_all [Fault.IsOfValues, Fault.arises]

end

/-- A computation that does not report an exceeded step limit. -/
def Unlimited {α : Type} (x : Except Fault α) : Prop := ∀ limit, x ≠ .error (.stepLimit limit)

lemma unlimited_ok {α : Type} (a : α) : Unlimited (.ok a : Except Fault α) := by
  intro limit
  simp

lemma Unlimited.error {α β : Type} {x : Except Fault α} (hx : Unlimited x) {e : Fault}
    (h : x = .error e) : Unlimited (.error e : Except Fault β) := by
  intro limit he
  rw [Except.error.injEq] at he
  exact hx limit (by rw [h, he])

lemma Arising.unlimited {α : Type} {depth : Nat} {endless : Prop} {x : Except Fault α}
    (hx : Arising depth endless x) : Unlimited x := by
  intro limit h
  exact hx _ h

lemma ClassFile.arising_resolve {depth : Nat} {endless : Prop} (c : ClassFile) (name : String) :
    Arising depth endless (c.resolve name) := by
  intro e h
  rw [ClassFile.resolve] at h
  split at h
  · simp at h
  · obtain rfl := by simpa using h
    trivial

/-! ## Instructions that do not end -/

/-- **A call that follows references without end breaks the machine.** -/
lemma LibraryMethod.perform_of_unending {h : Heap} {m : LibraryMethod} {this : Value}
    {args : List Value} (hends : m.Unending h this args) :
    m.perform h this args = .error .aborted := by
  have wrapped : ∀ {v otherwise}, Heap.Unending h.Wraps v →
      h.listItems v otherwise = .error .aborted := by
    intro v otherwise hwraps
    have : ¬ h.unwraps v = true := fun hv => Heap.unwraps_iff.1 hv hwraps
    rw [Heap.listItems, if_neg this]
  cases m with
  | println what =>
      cases what with
      | int | bool => exact hends.elim
      | text | object =>
          simp [perform, printedLine, Heap.textOf?_eq_none_iff.2 hends, bind, Except.bind]
  | listCopy | listSize => simp [perform, wrapped hends, bind, Except.bind]
  | closureInvoke =>
      obtain ⟨⟨receiver, name, hclosure⟩, hwraps⟩ := hends
      simp [perform, hclosure, wrapped hwraps, bind, Except.bind]
  | _ => exact hends.elim

/-- The instruction is a call of the library that follows references without end. -/
def Frame.Unending (c : ClassFile) (f : Frame) (w : World) (i : Instruction) : Prop :=
  ∃ kind method m receiver args rest, i = .invoke kind method ∧ method.owner ≠ c.name ∧
    LibraryMethod.resolve? method = some m ∧
    f.stack = args.reverse ++ Option.toList receiver ++ rest ∧ args.length = method.arity ∧
    (receiver = none ↔ kind = .static) ∧ m.Unending w.heap (receiver.getD .null) args

namespace Frame

section

variable {endless : Prop}

lemma arising_call (method : Method) (receiver : Option Value) (args : List Value) (depth : Nat)
    (use : ResultUse) : Arising depth endless (Frame.call method receiver args depth use) := by
  intro e h
  rw [Frame.call] at h
  split at h
  · next full =>
      obtain rfl := by simpa using h
      exact ⟨rfl, full⟩
  · split at h
    · obtain rfl := by simpa using h
      trivial
    · simp at h

variable {depth : Nat}

lemma arising_underflow {α : Type} (f : Frame) :
    Arising depth endless (.error f.underflow : Except Fault α) := by
  intro e h
  obtain rfl := by simpa using h
  trivial

lemma arising_pop (f : Frame) : Arising depth endless f.pop := by
  rw [pop]
  split
  · exact arising_ok _
  · exact f.arising_underflow

lemma arising_popInt (h : Heap) (f : Frame) : Arising depth endless (f.popInt h) := by
  rw [popInt]
  split
  · next he => exact f.arising_pop.error he
  · split
    · next he => exact (h.tame_rawInt _).arising.error he
    · exact arising_ok _

lemma arising_jumpIf (f : Frame) (cond : Bool) (target : Label) :
    Arising depth endless (f.jumpIf cond target) := by
  rw [jumpIf]
  split
  · intro e h
    rw [jump] at h
    split at h
    · simp at h
    · obtain rfl := by simpa using h
      trivial
  · exact arising_ok _

lemma arising_stay {w : World} {x : Except Fault Frame} (hx : Arising depth endless x) :
    Arising depth endless (stay w x).1 :=
  hx.bind fun _ => arising_ok _

variable (c : ClassFile) (f : Frame) (w : World)

lemma arising_callOwn (name : String) (receiver : Option Value) (args : List Value)
    (use : ResultUse) : Arising w.depth endless (f.callOwn c w name receiver args use).1 := by
  rw [callOwn]
  split
  · next he => exact (c.arising_resolve name).error he
  · split
    · next he => exact (arising_call _ _ _ _ _).error he
    · exact arising_ok _

lemma arising_callMember (name : String) (receiver : Option Value) (args : List Value) :
    Arising w.depth endless (f.callMember c w name receiver args).1 := by
  cases receiver with
  | none => exact f.arising_callOwn c w name none args .ifAny
  | some this =>
      rw [callMember]
      split
      · split
        · next he => exact (c.arising_resolve name).error he
        · split
          · next he => exact (w.heap.tame_construct _ _).arising.error he
          · next heap _ => exact f.arising_callOwn c { w with heap } name (some this) args .ifAny
      · exact f.arising_callOwn c w name (some this) args .ifAny

lemma arising_callMethod (method : MethodRef) (receiver : Option Value) (args : List Value)
    (hends : ∀ m, method.owner ≠ c.name → LibraryMethod.resolve? method = some m →
      m.Unending w.heap (receiver.getD .null) args → endless) :
    Arising w.depth endless (f.callMethod c w method receiver args).1 := by
  rw [callMethod]
  split
  · exact f.arising_callMember c w method.name receiver args
  · next howner =>
      split
      · next m hresolve =>
          rw [callLibrary]
          split
          · next he => exact ((m.perform_tame _ _ _).imp (hends m howner hresolve)).arising.error he
          · exact arising_ok _
          · exact arising_ok _
          · next heap _ => exact f.arising_callOwn c { w with heap } _ _ _ .orNull
      · intro e h
        obtain rfl := by simpa using h
        trivial

end

variable (c : ClassFile) (f : Frame) (w : World)

/-- **The faults of an instruction.** -/
lemma arising_execute (i : Instruction) :
    Arising w.depth (f.Unending c w i) (f.execute c i w).1 := by
  cases i with
  | label _ | load _ | zero | new _ | ret => exact arising_ok _
  | ldc constant => cases constant <;> exact arising_ok _
  | store _ | dup | pop =>
      exact arising_stay (f.arising_pop.bind fun _ => arising_ok _)
  | swap =>
      exact arising_stay (f.arising_pop.bind fun _ => (arising_pop _).bind fun _ => arising_ok _)
  | cast owner =>
      exact arising_stay (f.arising_pop.bind fun _ =>
        (w.heap.tame_checkCast owner _).arising.bind fun _ => arising_ok _)
  | getStatic field =>
      exact arising_stay ((tame_readStatic field).arising.bind fun _ => arising_ok _)
  | invoke kind method =>
      rw [execute]
      rcases f.invoke_split (c := c) (w := w) kind method with
        hshort | ⟨receiver, args, rest, hstack, harity, hkind, hcall⟩
      · rw [hshort]
        exact f.arising_underflow
      · rw [hcall]
        refine arising_callMethod c { f with stack := rest } w method receiver args ?_
        intro m howner hresolve hends
        exact ⟨kind, method, m, receiver, args, rest, rfl, howner, hresolve, hstack, harity, hkind,
          hends⟩
  | arith op =>
      exact arising_stay ((f.arising_popInt w.heap).bind fun _ =>
        (arising_popInt w.heap _).bind fun _ => (tame_apply op _ _).arising.bind fun _ =>
          arising_ok _)
  | neg => exact arising_stay ((f.arising_popInt w.heap).bind fun _ => arising_ok _)
  | jump target => exact arising_stay (f.arising_jumpIf true target)
  | ifZero target | ifNonzero target =>
      exact arising_stay ((f.arising_popInt w.heap).bind fun _ => arising_jumpIf _ _ target)
  | ifInt cond target =>
      exact arising_stay ((f.arising_popInt w.heap).bind fun _ =>
        (arising_popInt w.heap _).bind fun _ => arising_jumpIf _ _ target)
  | ifRef same target =>
      exact arising_stay (f.arising_pop.bind fun _ => (arising_pop _).bind fun _ =>
        arising_jumpIf _ _ target)
  | retValue =>
      rw [execute]
      split
      · next he => exact f.arising_pop.error he
      · exact arising_ok _

/-- **The instructions that break the machine.** -/
lemma execute_aborted_iff (i : Instruction) :
    (f.execute c i w).1 = .error .aborted ↔ f.Unending c w i := by
  refine ⟨f.arising_execute c w i .aborted, ?_⟩
  rintro ⟨kind, method, m, receiver, args, rest, rfl, howner, hresolve, hstack, harity,
    hkind, hends⟩
  have hcall : f.invoke c w kind method =
      callMethod c { f with stack := rest } w method receiver args := by
    rw [List.append_assoc] at hstack
    rw [invoke, ← harity, popArgs_reverse hstack]
    cases receiver with
    | none => simp [hkind.1 rfl]
    | some this => cases kind <;> simp_all [pop]
  rw [execute, hcall, callMethod, if_neg howner]
  simp [hresolve, callLibrary, LibraryMethod.perform_of_unending hends]

end Frame

/-! ## Two limits -/

namespace Machine

variable {c : ClassFile} {m : Machine}

lemma Stops.unlimited {k : Nat} {result : Except Fault Outcome} {w : World}
    (h : Stops c m k result w) : Unlimited result := by
  cases h with
  | @fault i e w hi hexec =>
      have hfault := (m.frame.advanced.arising_execute c m.world i).unlimited
      rw [hexec] at hfault
      exact hfault.error rfl
  | exit _ _ _ | fall _ _ => exact unlimited_ok _

/-- The next instruction breaks the machine. -/
def Breaks (c : ClassFile) (m : Machine) : Prop :=
  ∃ i, m.frame.code[m.frame.pc]? = some i ∧ m.frame.advanced.Unending c m.world i

/-- **The runs that break the machine** are those that come to an instruction without an end. -/
lemma run_aborted_iff {limit budget taken : Nat} :
    (run c limit budget taken m).result = .error .aborted ↔
      ∃ n m', Leads c m n m' ∧ n < budget ∧ Breaks c m' := by
  constructor
  · intro haborted
    have ended := run_ends c limit budget taken m
    generalize run c limit budget taken m = e at ended haborted
    cases ended with
    | @stops n k m' result w hleads hstops hle =>
        cases hstops with
        | @fault i e w hi hexec =>
            obtain rfl : e = .aborted := by simpa using haborted
            refine ⟨n, m', hleads, by omega, i, hi, ?_⟩
            rw [← Frame.execute_aborted_iff, hexec]
        | exit _ _ _ | fall _ _ => simp at haborted
    | limit _ _ => simp at haborted
  · rintro ⟨n, m', hleads, hlt, i, hi, hunending⟩
    rw [← Frame.execute_aborted_iff] at hunending
    have stops := Stops.fault (c := c) hi (Prod.ext hunending rfl)
    obtain ⟨rest, rfl⟩ : ∃ rest, budget = rest + 1 + n := ⟨budget - 1 - n, by omega⟩
    rw [run_of_leads hleads, run_of_stops stops]

/-- **A run counts its steps**: it ends within its budget, or it reports the limit and has counted
one step more than the budget. -/
lemma run_counts (c : ClassFile) (limit budget taken : Nat) (m : Machine) :
    let e := run c limit budget taken m
    taken ≤ e.steps ∧ (e.steps ≤ taken + budget ∧ Unlimited e.result ∨
      e.steps = taken + budget + 1 ∧ e.result = .error (.stepLimit limit)) := by
  have ended := run_ends c limit budget taken m
  generalize run c limit budget taken m = e at ended
  cases ended with
  | stops hleads hstops hle =>
      exact ⟨by simp, .inl ⟨by simp only; omega, hstops.unlimited⟩⟩
  | limit hleads hi => exact ⟨by simp only; omega, .inr ⟨rfl, rfl⟩⟩

/-- The end of a run after some of the open calls have been left. -/
def End.leave (e : End) (calls : Nat) : End := { e with world := e.world.leave calls }

/-- The fault that a run ended in. -/
def End.fault? (e : End) : Option Fault :=
  match e.result with
  | .error fault => some fault
  | .ok _ => none

lemma result_of_fault? {e : End} {fault : Fault} (h : e.fault? = some fault) :
    e.result = .error fault := by
  rw [End.fault?] at h
  split at h <;> simp_all

/-- `short` is a run that was to end as `long`, cut at a limit. -/
structure CutShort (limit : Nat) (short long : End) : Prop where
  result : short.result = .error (.stepLimit limit)
  steps : short.steps = limit + 1
  printed : short.world.printed.toList <+: long.world.printed.toList

lemma CutShort.leave {limit calls : Nat} {short long : End} (h : CutShort limit short long) :
    CutShort limit (short.leave calls) (long.leave calls) :=
  ⟨h.result, h.steps, h.printed⟩

/-- **A smaller limit cuts a run short, or changes nothing.**  The steps that the longer run takes
tell which. -/
lemma run_truncates {short long : Nat} (h : short ≤ long) :
    ((run c long long 0 m).steps ≤ short → run c short short 0 m = run c long long 0 m) ∧
      (short < (run c long long 0 m).steps →
        CutShort short (run c short short 0 m) (run c long long 0 m)) := by
  have ended := run_ends c short short 0 m
  generalize run c short short 0 m = e at ended ⊢
  cases ended with
  | @stops n k m' result w hleads hstops hle =>
      -- the run stops by itself before either limit
      have same : run c long long 0 m = ⟨result, w, 0 + (n + k)⟩ := by
        obtain ⟨rest, rfl⟩ : ∃ rest, long = rest + k + n := ⟨long - k - n, by omega⟩
        rw [run_of_leads hleads, run_of_stops hstops, Nat.add_assoc]
      rw [same]
      exact ⟨fun _ => rfl, fun hlt => absurd hlt (by simp only; omega)⟩
  | @limit m' i hleads hi =>
      -- the run still has an instruction when the smaller limit is used up
      have onward : run c long long 0 m = run c long (long - short) (0 + short) m' := by
        rw [← run_of_leads hleads, Nat.sub_add_cancel h]
      have counted : short < (run c long long 0 m).steps := by
        rw [onward, run, settle_of_some hi]
        cases long - short with
        | zero => simp
        | succ budget =>
            simp only
            split
            · simp
            · split
              · simp
              · next next _ =>
                  have := (run_counts c long budget (0 + short + 1) next).1
                  omega
      refine ⟨fun hle => absurd hle (by omega), fun _ => ⟨rfl, by simp, ?_⟩⟩
      rw [onward]
      exact printed_run c long (long - short) (0 + short) m'

/-- A run that comes to its end under a limit comes to the same end under every greater one. -/
lemma run_of_unlimited {short long : Nat} (h : short ≤ long)
    (hended : Unlimited (run c short short 0 m).result) :
    run c long long 0 m = run c short short 0 m := by
  obtain ⟨within, beyond⟩ := run_truncates (c := c) (m := m) h
  rcases Nat.lt_or_ge short (run c long long 0 m).steps with hlt | hle
  · exact absurd (beyond hlt).result (hended short)
  · exact (within hle).symm

end Machine

/-! ## Requests -/

namespace Session

/-- A session that has taken no step yet. -/
def fresh (c : ClassFile) (world : World) (limit : Nat) : Session :=
  { classFile := c, stepLimit := limit, world }

/-- How a request ended: its result, and what the session has become. -/
def ending (answered : Except Fault Outcome × Session) : Machine.End :=
  ⟨answered.1, answered.2.world, answered.2.steps⟩

/-- The first state of a run does not depend on the limit. -/
lemma opening_fresh (c : ClassFile) (world : World) (limit limit' : Nat) (request : Request) :
    (fresh c world limit).opening request = (fresh c world limit').opening request := by
  cases request <;> rfl

/-- A request that cannot be started reports a missing entry point, or what a call can. -/
lemma firstFrame_error {s : Session} {request : Request} {e : Fault}
    (h : s.firstFrame request = .error e) :
    e = .noEntryPoint ∨ e.arises s.world.depth False := by
  cases request with
  | main =>
      simp only [firstFrame] at h
      split at h
      · exact .inl (by simpa using h.symm)
      · exact .inr (Frame.arising_call _ none [.null] _ .ifAny e h)
  | invoke receiver method args =>
      exact .inr ((s.classFile.arising_resolve method).bind
        (fun found => Frame.arising_call found (some receiver) args _ .ifAny) e h)
  | fragment code locals =>
      simp only [firstFrame, Frame.fragment] at h
      split at h
      · obtain rfl := by simpa using h
        exact .inr trivial
      · simp at h

variable {c : ClassFile} {world : World} {limit : Nat} {request : Request}

lemma ending_of_error {e : Fault} (h : (fresh c world limit).opening request = .error e) :
    ending ((fresh c world limit).answer request) = ⟨.error e, world, 0⟩ := by
  rw [answer_of_error h]
  rfl

lemma ending_of_opening {first : Machine} (h : (fresh c world limit).opening request = .ok first) :
    ending ((fresh c world limit).answer request) =
      (Machine.run c limit limit 0 first).leave request.calls := by
  rw [answer_of_opening h]
  rfl

lemma ending_of_unlimited {short long : Nat} (h : short ≤ long)
    (hended : Unlimited (ending ((fresh c world short).answer request)).result) :
    ending ((fresh c world long).answer request) =
      ending ((fresh c world short).answer request) := by
  have hopening := opening_fresh c world short long request
  cases hfirst : (fresh c world long).opening request with
  | error e => rw [ending_of_error hfirst, ending_of_error (hopening.trans hfirst)]
  | ok first =>
      rw [ending_of_opening (hopening.trans hfirst)] at hended ⊢
      rw [ending_of_opening hfirst, Machine.run_of_unlimited h hended]

end Session

open Session Machine in
/-- **Step limits only truncate runs.**  Ask a fresh session for anything, under two limits.  If the
run under the greater limit takes no more steps than the smaller one allows, both end alike; if it
takes more, and in particular if it exceeds its own limit, the run under the smaller limit exceeds
that, with the first of the lines printed.  Every run ends, by moves that its limit pays for; but it
breaks the machine exactly if it comes to an instruction that follows references without end. -/
theorem answer_truncates (c : ClassFile) (world : World) (request : Request) {short long : Nat}
    (h : short ≤ long) :
    let cut := ending ((fresh c world short).answer request)
    let full := ending ((fresh c world long).answer request)
    (full.steps ≤ short → cut = full) ∧
      (short < full.steps → CutShort short cut full) ∧
      ((∃ limit, full.result = .error (.stepLimit limit)) → CutShort short cut full) ∧
      (full.steps ≤ long ∧ Unlimited full.result ∨
        full.steps = long + 1 ∧ full.result = .error (.stepLimit long)) ∧
      (∀ first, (fresh c world long).opening request = .ok first →
        ∃ e, Ends c long long 0 first e ∧ full = e.leave request.calls) ∧
      (full.result = .error .aborted ↔ ∃ first n m,
        (fresh c world long).opening request = .ok first ∧ Leads c first n m ∧ n < long ∧
          Breaks c m) := by
  intro cut full
  have hopening := opening_fresh c world short long request
  cases hfirst : (fresh c world long).opening request with
  | error e =>
      rw [hfirst] at hopening
      have hcut : cut = ⟨.error e, world, 0⟩ := ending_of_error hopening
      have hfull : full = ⟨.error e, world, 0⟩ := ending_of_error hfirst
      have reported := firstFrame_error (opening_eq_error.1 hfirst)
      have unlimited : Unlimited (.error e : Except Fault Outcome) := by
        rintro limit ⟨⟩
        simp [Fault.arises] at reported
      have unbroken : e ≠ .aborted := by
        rintro rfl
        simp [Fault.arises] at reported
      rw [hcut, hfull]
      refine ⟨fun _ => rfl, fun hlt => absurd hlt (Nat.not_lt_zero _), ?_,
        .inl ⟨Nat.zero_le _, unlimited⟩, by simp, by simp [unbroken]⟩
      rintro ⟨limit, hlimit⟩
      exact absurd hlimit (unlimited limit)
  | ok first =>
      rw [hfirst] at hopening
      have hcut : cut = (run c short short 0 first).leave request.calls :=
        ending_of_opening hopening
      have hfull : full = (run c long long 0 first).leave request.calls := ending_of_opening hfirst
      obtain ⟨within, beyond⟩ := run_truncates (c := c) (m := first) h
      obtain ⟨-, counted⟩ := run_counts c long long 0 first
      rw [Nat.zero_add] at counted
      rw [hcut, hfull]
      refine ⟨fun hle => congrArg (End.leave · request.calls) (within hle),
        fun hlt => (beyond hlt).leave, ?_, counted, ?_, ?_⟩
      · rintro ⟨limit, hlimit⟩
        rcases counted with ⟨-, unlimited⟩ | ⟨hsteps, -⟩
        · exact absurd hlimit (unlimited limit)
        · exact (beyond (by omega)).leave
      · rintro first' ⟨⟩
        exact ⟨_, run_ends c long long 0 first, rfl⟩
      · simpa [End.leave] using run_aborted_iff (c := c) (m := first)

/-- A class whose entry point prints a number over and over. -/
def tickingClass : ClassFile :=
  { name := "Main", superName := ClassName.object
    methods := [
      { name := "main", descriptor := "([Ljava/lang/String;)V", isStatic := true
        code := #[.label ⟨0⟩, .getStatic consoleField, .ldc (.int 1),
          .callVirtual (.println .int), .jump ⟨0⟩] }] }

open Session Machine in
theorem answer_truncates_tickingClass :
    let cut := ending ((fresh tickingClass {} 7).answer .main)
    let full := ending ((fresh tickingClass {} 12).answer .main)
    7 ≤ 12 ∧ full.result = .error (.stepLimit 12) ∧ full.world.printed.size = 2 ∧
      CutShort 7 cut full := by
  intro cut full
  have exceeded : full.result = .error (.stepLimit 12) := by rfl
  have twice : full.world.printed.size = 2 := by rfl
  obtain ⟨-, -, limited, -⟩ := answer_truncates tickingClass {} .main (show 7 ≤ 12 by decide)
  exact ⟨by decide, exceeded, twice, limited ⟨12, exceeded⟩⟩

/-- A class whose entry point makes a list, puts it into itself and prints it. -/
def knotClass : ClassFile :=
  { name := "Main", superName := ClassName.object
    methods := [
      { name := "main", descriptor := "([Ljava/lang/String;)V", isStatic := true
        code := #[.new ClassName.array, .dup, .construct .arrayInit, .store 1,
          .new ClassName.list, .dup, .load 1, .construct .listInit, .store 2,
          .load 1, .load 2, .callVirtual .arrayAdd, .pop,
          .getStatic consoleField, .load 2, .callVirtual (.println .object), .ret] }] }

open Session Machine in
/-- **Not every action ends**: there is no end to the line that this one prints, and no limit that
lets it get there helps. -/
theorem answer_knotClass :
    (ending ((fresh knotClass {} 15).answer .main)).result = .error (.stepLimit 15) ∧
      ∀ limit, 16 ≤ limit →
        (ending ((fresh knotClass {} limit).answer .main)).result = .error .aborted := by
  have early : (ending ((fresh knotClass {} 15).answer .main)).fault? = some (.stepLimit 15) := by
    decide +kernel
  have broken : (ending ((fresh knotClass {} 16).answer .main)).fault? = some .aborted := by
    decide +kernel
  refine ⟨result_of_fault? early, fun limit h => ?_⟩
  rw [ending_of_unlimited h (by simp [Unlimited, result_of_fault? broken]), result_of_fault? broken]

end StackBackend
