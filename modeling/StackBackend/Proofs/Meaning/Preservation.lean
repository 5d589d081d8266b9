import StackBackend.Proofs.Lowering.Depths
import StackBackend.Proofs.Meaning.Statement
import StackBackend.Proofs.Typing.Acceptance

/-!
# Lowering preserves the meaning of a block

The code of a block, run by the machine on slots that hold a store, does what direct execution of
the block does on that store.

* `EndsLike` — the result of a run is that of a direct execution: it fell off the end, returned the
  same value or failed in the same way, without operands and with the same values in the slots;
* `lowerBlock_preserves_meaning` — well-typed blocks are lowered, every execution that ends is
  matched by every run that is given enough steps, and where execution never ends every run meets
  its limit, having printed lines that execution prints too.

A run is bounded by steps and an execution by rounds of its loops.  What joins them is that `Lands`
pays at least a step for a round: where execution is still running after `fuel` rounds, so is a run
after `fuel` steps (`Machine.run_of_long`).
-/

namespace StackBackend.Direct

open Lowering Typing

/-! ## Results -/

/-- **A run ended as direct execution does.** -/
def EndsLike (Γ : Context) (slots : Slots) (ending : Ending) (final : Snapshot)
    (result : Except Fault Outcome) : Prop :=
  match ending with
  | .falls => ∃ locals, Holds Γ slots locals final.store ∧
      result = .ok { returned := none, exited := false, stack := [], locals }
  | .returns v => ∃ value locals, Option.Rel Represents value v ∧
      Holds Γ slots locals final.store ∧
      result = .ok { returned := value, exited := true, stack := [], locals }
  | .fails why => ∃ fault, Raises why fault ∧ result = .error fault
  | .breaks | .restarts | .running => False

section Runs

variable {s : Site} {Γ : Context} {slots : Slots} {base : List String}

/-- A run that leads to where it stops ends there, given the steps for it. -/
lemma run_of_steps {p q : Point} {n k : Nat} {result : Except Fault Outcome} {w : World}
    (hsteps : s.Steps p n q) (hstops : Machine.Stops s.classFile (s.machine q) k result w)
    {budget : Nat} (hbudget : n + k ≤ budget) (limit taken : Nat) :
    Machine.run s.classFile limit budget taken (s.machine p) = ⟨result, w, taken + n + k⟩ := by
  obtain ⟨rest, rfl⟩ : ∃ rest, budget = rest + k + n := ⟨budget - n - k, by omega⟩
  rw [Machine.run_of_leads hsteps, Machine.run_of_stops hstops]

/-- **Where execution ends, so does a run with enough steps.** -/
lemma run_of_lands (hcallers : s.callers = []) {fuel : Nat} {p : Point} {ending : Ending}
    {final : Snapshot} (h : Lands s Γ slots base fuel none p s.code.size (ending, final))
    (hended : ending ≠ .running) :
    ∃ needed, ∀ limit budget taken, needed ≤ budget →
      let e := Machine.run s.classFile limit budget taken (s.machine p)
      EndsLike Γ slots ending final e.result ∧
        e.world.printed.toList = base ++ final.printed := by
  cases ending with
  | falls =>
      obtain ⟨n, q, hsteps, hpc, hstack, hholds, hprinted⟩ := h
      have stops : Machine.Stops s.classFile (s.machine q) 0
          (.ok { exited := false, stack := q.stack, locals := q.locals }) q.world := by
        refine .fall ?_ hcallers
        show s.code[q.pc]? = none
        simp [hpc]
      refine ⟨n, fun limit budget taken hbudget => ?_⟩
      rw [run_of_steps hsteps stops hbudget limit taken, hstack]
      exact ⟨⟨q.locals, hholds, rfl⟩, hprinted⟩
  | breaks | restarts =>
      obtain ⟨labels, hnone, -⟩ := h
      simp at hnone
  | returns v =>
      obtain ⟨n, q, value, hsteps, hholds, hprinted, hvalue, hstops⟩ := h
      refine ⟨n + 1, fun limit budget taken hbudget => ?_⟩
      rw [run_of_steps hsteps hstops hbudget limit taken]
      exact ⟨⟨value, q.locals, hvalue, hholds, rfl⟩, hprinted⟩
  | fails why =>
      obtain ⟨n, q, fault, hsteps, hprinted, hfails, hraises⟩ := h
      refine ⟨n + 1, fun limit budget taken hbudget => ?_⟩
      rw [run_of_steps hsteps hfails hbudget limit taken]
      exact ⟨⟨fault, hraises, rfl⟩, hprinted⟩
  | running => exact absurd rfl hended

end Runs

/-! ## Blocks on the machine -/

/-- Where bare code runs. -/
def fragmentSite (c : ClassFile) (hapart : ∀ m : LibraryMethod, m.ref.owner ≠ c.name)
    {code : Code} {labels : LabelTable} (hlabels : labelTable code = .ok labels) : Site where
  classFile := c
  method := "<fragment>"
  code
  labels
  use := .ifAny
  callers := []
  apart := hapart
  located := hlabels

/-- A run of bare code is a run at its site. -/
lemma runCode_eq {session : Session}
    (hapart : ∀ m : LibraryMethod, m.ref.owner ≠ session.classFile.name)
    {code : Code} {labels : LabelTable} (hlabels : labelTable code = .ok labels)
    (locals : Array Value) (limit : Nat) :
    ∃ steps, { session with stepLimit := limit }.runCode code locals =
      let site := fragmentSite session.classFile hapart hlabels
      let e := Machine.run site.classFile limit (limit - session.steps) session.steps
        (site.machine ⟨0, [], locals, session.world⟩)
      (e.result, { session with stepLimit := limit, world := e.world, steps }) := by
  rw [Session.runCode, Frame.fragment, hlabels]
  exact ⟨_, rfl⟩

/-- **The runs of a block's code do what its direct execution does**: `ran limit` is the run that is
given so many steps, and `base` what was printed before it. -/
structure RunsLike (Γ : Context) (slots : Slots) (block : List Stmt) (store : Store)
    (base : List String) (ran : Nat → Except Fault Outcome × Session) : Prop where
  /-- Execution that ends is matched by every run that is long enough. -/
  ends : ∀ ending final, Ends block ⟨store, []⟩ ending final → ∃ needed, ∀ limit, needed ≤ limit →
    EndsLike Γ slots ending final (ran limit).1 ∧
      (ran limit).2.world.printed.toList = base ++ final.printed
  /-- Where execution never ends, every run meets its limit. -/
  limited : Diverges block ⟨store, []⟩ → ∀ limit, (ran limit).1 = .error (.stepLimit limit)
  /-- A run that meets its limit has printed nothing that execution does not print. -/
  printsOnly : Diverges block ⟨store, []⟩ → ∀ limit, ∃ fuel,
    (ran limit).2.world.printed.toList <+: base ++ (execBlock fuel block ⟨store, []⟩).2.printed
  /-- Whatever execution prints is printed by every run that is long enough. -/
  printsAll : Diverges block ⟨store, []⟩ → ∀ fuel, ∃ needed, ∀ limit, needed ≤ limit →
    base ++ (execBlock fuel block ⟨store, []⟩).2.printed <+: (ran limit).2.world.printed.toList

/-- Runs of a fragment that lands where a block ends. -/
lemma runsLike_of_lands {Γ : Context} {slots : Slots} {block : List Stmt} {store : Store}
    {session : Session} (hapart : ∀ m : LibraryMethod, m.ref.owner ≠ session.classFile.name)
    {code : Code} {labels : LabelTable} (hlabels : labelTable code = .ok labels)
    {locals : Array Value}
    (h : ∀ fuel, Lands (fragmentSite session.classFile hapart hlabels) Γ slots
      session.world.printed.toList fuel none ⟨0, [], locals, session.world⟩ code.size
      (execBlock fuel block ⟨store, []⟩)) :
    RunsLike Γ slots block store session.world.printed.toList
      fun limit => { session with stepLimit := limit }.runCode code locals := by
  -- where execution is still running after so many rounds, so is the machine after as many steps
  have running : Diverges block ⟨store, []⟩ → ∀ fuel, ∃ n q, fuel ≤ n ∧
      (fragmentSite session.classFile hapart hlabels).Steps ⟨0, [], locals, session.world⟩ n q ∧
      q.world.printed.toList
        = session.world.printed.toList ++ (execBlock fuel block ⟨store, []⟩).2.printed := by
    intro hdiverges fuel
    have lands := h fuel
    have still := hdiverges fuel
    generalize execBlock fuel block ⟨store, []⟩ = result at lands still ⊢
    obtain ⟨ending, r⟩ := result
    subst still
    exact lands
  constructor
  case ends =>
      rintro ending final ⟨hended, fuel, hexec⟩
      have lands := h fuel
      rw [hexec] at lands
      obtain ⟨needed, hneeded⟩ := run_of_lands rfl lands hended
      refine ⟨needed + session.steps, fun limit hlimit => ?_⟩
      obtain ⟨steps, hran⟩ := runCode_eq hapart hlabels locals limit
      rw [hran]
      exact hneeded limit (limit - session.steps) session.steps (by omega)
  case limited =>
      intro hdiverges limit
      obtain ⟨n, q, hn, hsteps, -⟩ := running hdiverges (limit + 1)
      obtain ⟨steps, hran⟩ := runCode_eq hapart hlabels locals limit
      rw [hran]
      exact (Machine.run_of_long hsteps (by omega) limit session.steps).1
  case printsOnly =>
      intro hdiverges limit
      obtain ⟨n, q, hn, hsteps, hprinted⟩ := running hdiverges (limit + 1)
      obtain ⟨steps, hran⟩ := runCode_eq hapart hlabels locals limit
      refine ⟨limit + 1, ?_⟩
      rw [hran, ← hprinted]
      exact (Machine.run_of_long hsteps (by omega) limit session.steps).2
  case printsAll =>
      intro hdiverges fuel
      obtain ⟨n, q, -, hsteps, hprinted⟩ := running hdiverges fuel
      refine ⟨n + session.steps, fun limit hlimit => ?_⟩
      obtain ⟨steps, hran⟩ := runCode_eq hapart hlabels locals limit
      obtain ⟨rest, hrest⟩ : ∃ rest, limit - session.steps = rest + n :=
        ⟨limit - session.steps - n, by omega⟩
      rw [hran, ← hprinted, hrest]
      show _ <+: (Machine.run _ limit (rest + n) _ _).world.printed.toList
      rw [Machine.run_of_leads hsteps]
      exact Machine.printed_run _ limit rest _
        ((fragmentSite session.classFile hapart hlabels).machine q)

/-- **Lowering preserves the meaning of a block.**  A well-typed block over numbers, truth values
and texts is lowered, unless it needs more slots than there are left, and the runs of its code on
slots that hold a store do what its direct execution on that store does. -/
theorem lowerBlock_preserves_meaning (env : Env) (vars : String → Option Ty) (ret : Ty)
    (scope : ScopeId) (block : List Stmt) (start : State)
    (htyped : (Context.ofVars env.symbols vars ret).blockTyped false scope block = true)
    (hscalar : scalarBlock block = true) (hcode : start.code = #[])
    (hloops : start.loops.loops = []) :
    (lowerBlock env scope block).RunsOut (Stmt.needIn env.symbols scope block) start ∨
    ∃ done, (lowerBlock env scope block).Does start () done ∧
      ∀ (session : Session) (locals : Array Value) (store : Store),
        (∀ m : LibraryMethod, m.ref.owner ≠ session.classFile.name) →
        Holds (.ofVars env.symbols vars ret) done.slots locals store →
        RunsLike (.ofVars env.symbols vars ret) done.slots block store
          session.world.printed.toList
          fun limit => { session with stepLimit := limit }.runCode done.code locals := by
  have settles := (agrees_ofVars env vars ret).settles_lowerBlock block htyped
  rcases settles.does_or_runsOut (law_fills.lowerBlock _ _ _) (law_needs.lowerBlock _ _ _)
      (s := start) (by simp) with ⟨⟨⟩, done, hdoes⟩ | hout
  case inr => exact .inl hout
  have outside : start.loops.innermost? = none := by simp [LoopStack.innermost?, hloops]
  obtain ⟨code, u, hblock, hgrows⟩ := blockCode_of_does block hdoes
  rw [outside] at hblock
  have hdone : done.code = code.toArray := by simp [hgrows.code, hcode]
  have hslots : done.slots = u.slots := congrArg Supply.slots hgrows.supply
  refine .inr ⟨done, hdoes, fun session locals store hapart hholds => ?_⟩
  rw [hslots] at hholds
  rw [hdone, hslots]
  obtain ⟨labels, hlabels⟩ : ∃ labels, labelTable code.toArray = .ok labels :=
    Balanced.exists_labelTable (by simpa using hblock.balanced)
  refine runsLike_of_lands hapart hlabels fun fuel => ?_
  have stands : (fragmentSite session.classFile hapart hlabels).Has 0 code := by
    intro j i hj
    simpa [fragmentSite] using hj
  have lands : Lands (fragmentSite session.classFile hapart hlabels) _ u.slots
      session.world.printed.toList fuel none ⟨0, [], locals, session.world⟩ (0 + code.length)
      (execBlock fuel block ⟨store, []⟩) :=
    lands_block hblock rfl htyped hscalar (.refl _) rfl stands locals session.world ⟨store, []⟩
      hholds (by simp)
  simpa using lands

/-- Count to four, print on the way, and leave two out. -/
def countingBlock : List Stmt :=
  let number (k : Int32) : Expr := .int { ty := .int, span := default } k
  let n : Expr := .ident { ty := .int, span := default } "n"
  let test (op : BinaryOp) (k : Int32) : Expr :=
    .binary { ty := .bool, span := default } op n (number k)
  [.loop default [
    .assign default n none .add (number 1),
    .branch default (test .eq 2) [.nextLoop default] [] none,
    .branch default (test .ge 4) [.exitLoop default] [.put default n] none] none]

/-- A table that binds `n` to a number. -/
def countingSymbols : SymbolTable :=
  SymbolTable.initial.define .global (.var ⟨"n", .int⟩)

/-- The types of its variables. -/
def countingVars (name : String) : Option Ty := if name = "n" then some .int else none

theorem lowerBlock_preserves_meaning_countingBlock :
    ∃ done, (lowerBlock { symbols := countingSymbols } .global countingBlock).Does {} () done ∧
      ∃ needed, ∀ limit, needed ≤ limit →
        let ran := ({ classFile := { name := "Main", superName := ClassName.object }
                      stepLimit := limit } : Session).runCode done.code #[.null, .integer 0]
        (∃ locals, ran.1 = .ok { exited := false, stack := [], locals }) ∧
          ran.2.world.printed.toList = ["1", "3"] := by
  have enough : ¬ (lowerBlock { symbols := countingSymbols } .global countingBlock).RunsOut
      (Stmt.needIn countingSymbols .global countingBlock) {} := by
    have ends : ((lowerBlock { symbols := countingSymbols } .global countingBlock).ending
        {}).1.toBool = true := by decide +kernel
    intro out
    simp [out.fails, Except.toBool] at ends
  obtain ⟨done, hdoes, hruns⟩ := (lowerBlock_preserves_meaning { symbols := countingSymbols }
    countingVars .void .global countingBlock {} (by decide +kernel)
    (by decide +kernel) rfl rfl).resolve_left enough
  refine ⟨done, hdoes, ?_⟩
  have place : done.slots.get? (.var "n") = some 1 := by
    have ended : ((lowerBlock { symbols := countingSymbols } .global countingBlock).ending
        {}).2.slots.get? (.var "n") = some 1 := by decide +kernel
    rwa [show (lowerBlock { symbols := countingSymbols } .global countingBlock).ending {} = _ from
      hdoes] at ended
  have held : Holds (.ofVars countingSymbols countingVars .void) done.slots
      #[.null, .integer 0] fun _ => .int 0 := by
    intro name ty hname _
    obtain ⟨rfl, rfl⟩ : name = "n" ∧ Ty.int = ty := by
      simpa [Context.ofVars, countingVars] using hname
    refine ⟨rfl, fun slot hslot => ?_⟩
    obtain rfl : 1 = slot := by simpa [place] using hslot
    exact .int 0
  have apart : ∀ m : LibraryMethod, m.ref.owner ≠ "Main" := by
    intro m
    cases m with
    | println what => cases what <;> decide
    | _ => decide
  obtain ⟨final, hended, lines⟩ : ∃ final, Ends countingBlock ⟨fun _ => .int 0, []⟩ .falls final ∧
      final.printed = ["1", "3"] := by
    have falls : (execBlock 5 countingBlock ⟨fun _ => .int 0, []⟩).1 = .falls := by decide +kernel
    have lines : (execBlock 5 countingBlock ⟨fun _ => .int 0, []⟩).2.printed = ["1", "3"] := by
      decide +kernel
    generalize hexec : execBlock 5 countingBlock ⟨fun _ => .int 0, []⟩ = result at falls lines
    obtain ⟨ending, final⟩ := result
    subst falls
    exact ⟨final, ⟨by simp, 5, hexec⟩, lines⟩
  have runs := hruns { classFile := { name := "Main", superName := ClassName.object } } _ _ apart
    held
  obtain ⟨needed, hneeded⟩ := runs.ends _ _ hended
  rw [lines] at hneeded
  refine ⟨needed, fun limit hlimit => ?_⟩
  obtain ⟨⟨locals, -, hresult⟩, hprinted⟩ := hneeded limit hlimit
  exact ⟨⟨locals, hresult⟩, hprinted⟩

end StackBackend.Direct
