import StackBackend.Machine.Session
import Mathlib.Tactic.Lemma

/-!
# Runs as sequences of moves

`Machine.run` is a function of a budget.  To speak about the states a run goes through, and to put
runs together from parts, this file takes it apart into moves.

* `Moves c m k m'` — one move: the frame on top carries out its instruction, at the price of one
  step, or it has none left and is left for its caller, which is free;
* `Leads c m n m'` — any number of moves at the price of `n` steps;
* `Stops c m k result w` — no move is left: the run ends here.

**The two directions.**  A run from `m` is a run from any state that `m` leads to, with as many
steps fewer (`run_of_leads`), and it ends where no move is left (`run_of_stops`).  Conversely every
run ends at a state it leads to, where no move is left or the budget is used up (`run_ends`).

**Printing.**  Lines that were printed stay printed (`Leads.printed`), so a run that is cut short
has printed the first of the lines it would have printed later (`run_of_long`).
-/

namespace StackBackend

/-! Counting calls leaves the heap and the printed lines alone. -/

namespace World

@[simp] lemma heap_enter (w : World) (calls : Nat) : (w.enter calls).heap = w.heap := rfl

@[simp] lemma printed_enter (w : World) (calls : Nat) : (w.enter calls).printed = w.printed := rfl

@[simp] lemma depth_enter (w : World) (calls : Nat) : (w.enter calls).depth = w.depth + calls := rfl

@[simp] lemma heap_leave (w : World) (calls : Nat) : (w.leave calls).heap = w.heap := rfl

@[simp] lemma printed_leave (w : World) (calls : Nat) : (w.leave calls).printed = w.printed := rfl

@[simp] lemma depth_leave (w : World) (calls : Nat) : (w.leave calls).depth = w.depth - calls := rfl

/-- A call that is opened and left again has not changed the count. -/
@[simp] lemma leave_enter (w : World) (calls : Nat) : (w.enter calls).leave calls = w := by
  simp [enter, leave]

end World

/-- The frame as its instruction finds it: it already points at the next one. -/
def Frame.advanced (f : Frame) : Frame := { f with pc := f.pc + 1 }

namespace Machine

/-! ## Moves -/

/-- One move of a run, and the number of steps it counts for. -/
inductive Moves (c : ClassFile) : Machine → Nat → Machine → Prop
  | execute {m m' : Machine} {i : Instruction} {control : Control} {w : World} :
      m.frame.code[m.frame.pc]? = some i →
      m.frame.advanced.execute c i m.world = (.ok control, w) →
      follow m.callers w control = .ok m' → Moves c m 1 m'
  | fall {m : Machine} {caller : Frame} {callers : List Frame} :
      m.frame.code[m.frame.pc]? = none → m.callers = caller :: callers →
      Moves c m 0 { frame := caller.receive m.frame.use none, callers, world := m.world.leave 1 }

/-- **Any number of moves**, and the number of steps they count for. -/
inductive Leads (c : ClassFile) : Machine → Nat → Machine → Prop
  | refl {m : Machine} : Leads c m 0 m
  | move {m m' m'' : Machine} {k n : Nat} : Moves c m k m' → Leads c m' n m'' →
      Leads c m (k + n) m''

/-- The run ends: an instruction fails, the first frame returns, or it has no instruction left. -/
inductive Stops (c : ClassFile) : Machine → Nat → Except Fault Outcome → World → Prop
  | fault {m : Machine} {i : Instruction} {e : Fault} {w : World} :
      m.frame.code[m.frame.pc]? = some i →
      m.frame.advanced.execute c i m.world = (.error e, w) →
      Stops c m 1 (.error e) (w.leave m.callers.length)
  | exit {m : Machine} {i : Instruction} {control : Control} {w : World} {outcome : Outcome} :
      m.frame.code[m.frame.pc]? = some i →
      m.frame.advanced.execute c i m.world = (.ok control, w) →
      follow m.callers w control = .error outcome → Stops c m 1 (.ok outcome) w
  | fall {m : Machine} : m.frame.code[m.frame.pc]? = none → m.callers = [] →
      Stops c m 0 (.ok { exited := false, stack := m.frame.stack, locals := m.frame.locals })
        m.world

lemma Leads.trans {c : ClassFile} {m m' m'' : Machine} {k n : Nat} (h : Leads c m k m')
    (h' : Leads c m' n m'') : Leads c m (k + n) m'' := by
  induction h with
  | refl => simpa using h'
  | move hmove _ ih =>
      rw [Nat.add_assoc]
      exact .move hmove (ih h')

lemma Moves.leads {c : ClassFile} {m m' : Machine} {k : Nat} (h : Moves c m k m') :
    Leads c m k m' := .move h .refl

/-- What every move keeps, every run keeps. -/
lemma Leads.preserves {c : ClassFile} {P : Machine → Prop}
    (step : ∀ {m m' : Machine} {k : Nat}, P m → Moves c m k m' → P m') {m m' : Machine} {n : Nat}
    (h : Leads c m n m') (hm : P m) : P m' := by
  induction h with
  | refl => exact hm
  | move hmove _ ih => exact ih (step hm hmove)

/-! ## Runs -/

lemma settle_of_some {frame : Frame} {i : Instruction} (h : frame.code[frame.pc]? = some i)
    (callers : List Frame) (world : World) :
    settle callers frame world = .ok (i, { frame, callers, world }) := by
  cases callers <;> simp [settle, h]

lemma run_of_moves {c : ClassFile} {m m' : Machine} {k : Nat} (h : Moves c m k m')
    (limit budget taken : Nat) :
    run c limit (budget + k) taken m = run c limit budget (taken + k) m' := by
  cases h with
  | execute hi hexec hfollow =>
      rw [run, settle_of_some hi]
      rw [Frame.advanced] at hexec
      simp [hexec, hfollow]
  | fall hnone hcallers =>
      rw [Nat.add_zero, Nat.add_zero, run, run, hcallers, settle]
      simp only [hnone]

/-- **A run goes on from every state it leads to.** -/
theorem run_of_leads {c : ClassFile} {m m' : Machine} {n : Nat} (h : Leads c m n m')
    (limit budget taken : Nat) :
    run c limit (budget + n) taken m = run c limit budget (taken + n) m' := by
  induction h generalizing budget taken with
  | refl => rfl
  | @move m m' m'' k n hmove _ ih =>
      have regrouped : budget + (k + n) = budget + n + k := by omega
      rw [regrouped, run_of_moves hmove, ih, Nat.add_assoc]

lemma run_of_stops {c : ClassFile} {m : Machine} {k : Nat} {result : Except Fault Outcome}
    {w : World} (h : Stops c m k result w) (limit budget taken : Nat) :
    run c limit (budget + k) taken m = ⟨result, w, taken + k⟩ := by
  cases h with
  | fault hi hexec =>
      rw [run, settle_of_some hi]
      rw [Frame.advanced] at hexec
      simp [hexec]
  | exit hi hexec hfollow =>
      rw [run, settle_of_some hi]
      rw [Frame.advanced] at hexec
      simp [hexec, hfollow]
  | fall hnone hcallers =>
      rw [Nat.add_zero, run, hcallers, settle]
      simp [hnone]

/-- Where the next instruction is found there is a move, unless the run ends with it. -/
lemma moves_or_stops (c : ClassFile) {m : Machine} {i : Instruction}
    (hi : m.frame.code[m.frame.pc]? = some i) :
    (∃ next, Moves c m 1 next) ∨ ∃ result w, Stops c m 1 result w := by
  rcases hexec : m.frame.advanced.execute c i m.world with ⟨e | control, w⟩
  · exact .inr ⟨_, _, .fault hi hexec⟩
  · cases hfollow : follow m.callers w control with
    | error outcome => exact .inr ⟨_, _, .exit hi hexec hfollow⟩
    | ok next => exact .inl ⟨next, .execute hi hexec hfollow⟩

/-- Frames without instructions are left until one has an instruction, or none is left. -/
lemma exists_settled (c : ClassFile) (m : Machine) :
    ∃ m', Leads c m 0 m' ∧
      ((∃ i, m'.frame.code[m'.frame.pc]? = some i) ∨ ∃ result w, Stops c m' 0 result w) := by
  obtain ⟨frame, callers, world⟩ := m
  induction callers generalizing frame world with
  | nil =>
      refine ⟨_, .refl, ?_⟩
      cases h : frame.code[frame.pc]? with
      | none => exact .inr ⟨_, _, .fall h rfl⟩
      | some i => exact .inl ⟨i, rfl⟩
  | cons caller callers ih =>
      cases h : frame.code[frame.pc]? with
      | none =>
          obtain ⟨m', hleads, hsettled⟩ := ih (caller.receive frame.use none) (world.leave 1)
          exact ⟨m', .move (k := 0) (n := 0) (.fall h rfl) hleads, hsettled⟩
      | some i => exact ⟨_, .refl, .inl ⟨i, h⟩⟩

/-- How a run ends: at a state where it stops, or where its budget is used up. -/
inductive Ends (c : ClassFile) (limit budget taken : Nat) (m : Machine) : End → Prop
  | stops {n k : Nat} {m' : Machine} {result : Except Fault Outcome} {w : World} :
      Leads c m n m' → Stops c m' k result w → n + k ≤ budget →
      Ends c limit budget taken m ⟨result, w, taken + (n + k)⟩
  | limit {m' : Machine} {i : Instruction} : Leads c m budget m' →
      m'.frame.code[m'.frame.pc]? = some i →
      Ends c limit budget taken m
        ⟨.error (.stepLimit limit), m'.world.leave m'.callers.length, taken + budget + 1⟩

/-- Moves in front of a run do not change how it ends. -/
lemma Ends.of_leads {c : ClassFile} {limit budget taken n : Nat} {m m' : Machine} {e : End}
    (h : Leads c m n m') (he : Ends c limit budget (taken + n) m' e) :
    Ends c limit (budget + n) taken m e := by
  cases he with
  | @stops n' k _ _ _ hleads hstops hle =>
      have regrouped : taken + n + (n' + k) = taken + (n + n' + k) := by omega
      rw [regrouped]
      exact .stops (h.trans hleads) hstops (by omega)
  | limit hleads hi =>
      have regrouped : taken + n + budget + 1 = taken + (budget + n) + 1 := by omega
      rw [regrouped]
      exact .limit (Nat.add_comm n budget ▸ h.trans hleads) hi

/-- **Every run ends where it stops, or where its budget is used up.** -/
theorem run_ends (c : ClassFile) (limit budget taken : Nat) (m : Machine) :
    Ends c limit budget taken m (run c limit budget taken m) := by
  induction budget generalizing taken m with
  | zero =>
      obtain ⟨m', hleads, ⟨i, hi⟩ | ⟨result, w, hstops⟩⟩ := exists_settled c m
      · have hrun : run c limit 0 taken m =
            ⟨.error (.stepLimit limit), m'.world.leave m'.callers.length, taken + 1⟩ := by
          rw [run_of_leads hleads limit 0 taken, run, settle_of_some hi]
        rw [hrun]
        exact .limit hleads hi
      · rw [run_of_leads hleads limit 0 taken, run_of_stops hstops limit 0]
        exact .stops hleads hstops (Nat.le_refl 0)
  | succ budget ih =>
      obtain ⟨m', hleads, ⟨i, hi⟩ | ⟨result, w, hstops⟩⟩ := exists_settled c m
      · rw [run_of_leads hleads limit (budget + 1) taken]
        show Ends c limit (budget + 1 + 0) taken m _
        refine .of_leads hleads ?_
        rcases moves_or_stops c hi with ⟨next, hmove⟩ | ⟨result, w, hstops⟩
        · rw [run_of_moves hmove limit budget]
          exact .of_leads hmove.leads (ih _ next)
        · rw [run_of_stops hstops limit budget]
          exact .stops .refl hstops (by omega)
      · rw [run_of_leads hleads limit (budget + 1) taken, run_of_stops hstops limit (budget + 1)]
        exact .stops hleads hstops (by omega)

end Machine

/-! ## Printed lines -/

namespace Frame

/-- Nothing printed is ever taken back. -/
lemma printed_callOwn (c : ClassFile) (f : Frame) (w : World) (name : String)
    (receiver : Option Value) (args : List Value) (use : ResultUse) :
    w.printed.toList <+: (f.callOwn c w name receiver args use).2.printed.toList := by
  rw [callOwn]
  split
  · exact List.prefix_rfl
  · split <;> exact List.prefix_rfl

lemma printed_callMethod (c : ClassFile) (f : Frame) (w : World) (method : MethodRef)
    (receiver : Option Value) (args : List Value) :
    w.printed.toList <+: (f.callMethod c w method receiver args).2.printed.toList := by
  rw [callMethod]
  split
  · cases receiver with
    | none => exact printed_callOwn ..
    | some this =>
        rw [callMember]
        split
        · split
          · exact List.prefix_rfl
          · split
            · exact List.prefix_rfl
            · next heap _ => exact printed_callOwn c f { w with heap } ..
        · exact printed_callOwn ..
  · split
    · rw [callLibrary]
      split
      · exact List.prefix_rfl
      · exact List.prefix_rfl
      · simp
      · next heap _ => exact printed_callOwn c f { w with heap } ..
    · exact List.prefix_rfl

lemma printed_execute (c : ClassFile) (i : Instruction) (f : Frame) (w : World) :
    w.printed.toList <+: (f.execute c i w).2.printed.toList := by
  cases i with
  | invoke kind method =>
      show _ <+: (f.invoke c w kind method).2.printed.toList
      rw [invoke]
      split
      · exact List.prefix_rfl
      · split
        · exact printed_callMethod ..
        · split
          · exact List.prefix_rfl
          · exact printed_callMethod ..
  | ldc constant => cases constant <;> exact List.prefix_rfl
  | retValue =>
      rw [execute]
      split <;> exact List.prefix_rfl
  | _ => exact List.prefix_rfl

end Frame

namespace Machine

/-- Where control goes does not matter for the heap and the printed lines. -/
lemma world_follow {callers : List Frame} {w : World} {control : Control} {m : Machine}
    (h : follow callers w control = .ok m) :
    m.world.heap = w.heap ∧ m.world.printed = w.printed := by
  cases control with
  | next frame | enter caller callee =>
      simp only [follow, Except.ok.injEq] at h
      simp [← h]
  | leave frame result =>
      cases callers with
      | nil => simp [follow] at h
      | cons caller callers =>
          simp only [follow, Except.ok.injEq] at h
          simp [← h]

lemma Moves.printed {c : ClassFile} {m m' : Machine} {k : Nat} (h : Moves c m k m') :
    m.world.printed.toList <+: m'.world.printed.toList := by
  cases h with
  | @execute _ i _ _ hi hexec hfollow =>
      have grown := Frame.printed_execute c i m.frame.advanced m.world
      rw [hexec] at grown
      rwa [(world_follow hfollow).2]
  | fall _ _ => exact List.prefix_rfl

lemma Leads.printed {c : ClassFile} {m m' : Machine} {n : Nat} (h : Leads c m n m') :
    m.world.printed.toList <+: m'.world.printed.toList := by
  induction h with
  | refl => exact List.prefix_rfl
  | move hmove _ ih => exact hmove.printed.trans ih

lemma Stops.printed {c : ClassFile} {m : Machine} {k : Nat} {result : Except Fault Outcome}
    {w : World} (h : Stops c m k result w) : m.world.printed.toList <+: w.printed.toList := by
  cases h with
  | @fault i _ _ _ hexec | @exit i _ _ _ _ hexec _ =>
      have grown := Frame.printed_execute c i m.frame.advanced m.world
      rwa [hexec] at grown
  | fall _ _ => exact List.prefix_rfl

lemma printed_run (c : ClassFile) (limit budget taken : Nat) (m : Machine) :
    m.world.printed.toList <+: (run c limit budget taken m).world.printed.toList := by
  have ends := run_ends c limit budget taken m
  generalize run c limit budget taken m = e at ends ⊢
  cases ends with
  | stops hleads hstops _ => exact hleads.printed.trans hstops.printed
  | limit hleads _ => exact hleads.printed

/-- **A run that leads further than its budget uses it up**, and has printed no more than it would
have further on. -/
theorem run_of_long {c : ClassFile} {m m' : Machine} {n : Nat} (h : Leads c m n m')
    {budget : Nat} (hlt : budget < n) (limit taken : Nat) :
    (run c limit budget taken m).result = .error (.stepLimit limit) ∧
      (run c limit budget taken m).world.printed.toList <+: m'.world.printed.toList := by
  induction h generalizing budget taken with
  | refl => omega
  | @move m m' m'' k n hmove hleads ih =>
      by_cases hk : k ≤ budget
      · obtain ⟨b, rfl⟩ : ∃ b, budget = b + k := ⟨budget - k, by omega⟩
        rw [run_of_moves hmove]
        exact ih (by omega) _
      · cases hmove with
        | execute hi hexec hfollow =>
            obtain rfl : budget = 0 := by omega
            rw [run, settle_of_some hi]
            exact ⟨rfl, (Moves.execute hi hexec hfollow).printed.trans hleads.printed⟩
        | fall _ _ => omega

end Machine

end StackBackend
