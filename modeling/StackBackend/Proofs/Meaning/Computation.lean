import StackBackend.Proofs.Meaning.ListLiterals
import StackBackend.Proofs.Meaning.Operators
import StackBackend.Proofs.Typing.Acceptance
import StackBackend.Tree.Build

/-!
# Lowered expressions compute their data

The code of a well-typed expression without calls pushes one value, which stands for the datum that
direct evaluation gives, and fails where direct evaluation fails.

* `yields_expr`, `fills_elements` — the code of an expression, and of the elements of a list, by
  induction along `ExprCode` and `ElementsCode`;
* `lowerExpr_computes` — the outcome, of every well-typed expression.
-/

namespace StackBackend.Data

open Lowering Typing
open Direct (combine chopped)

variable {s : Site} {Γ : Context} {slots : Slots} {env : Env} {scope : ScopeId}

/-! ## Expressions -/

mutual

/-- **The code of an expression yields what evaluation gives.** -/
theorem yields_expr {hidden : Set Nat} {literals : Nat} {t u : Supply} {e : Expr} {depth : Nat}
    {code : List Instruction} (h : ExprCode env scope depth t e code u)
    (hΓ : env.symbols = Γ.symbols) (ht : Γ.typed scope e = true)
    (hdata : isData Γ.symbols scope e = true) (hslots : u.slots.Within slots)
    (hle : literals ≤ t.literals) {pc : Nat} (hcode : s.Has pc code) {locals : Array Value}
    {store : Store} {stack : List Value} {w : World}
    (hholds : Holds Γ slots hidden ⟨pc, stack, locals, w⟩ store) :
    Yields s Γ slots hidden literals ⟨pc, stack, locals, w⟩ (pc + code.length) stack e.ty
      (eval e store) := by
  match h with
  | .leaf hleaf => exact yields_leaf hleaf hΓ ht hdata hslots hcode hholds
  | .unary _ hoperand hlast =>
      rw [Site.has_append] at hcode
      have operand := yields_expr hoperand hΓ (Context.typed_operand hlast ht)
        (isData_operand hlast hdata) (hlast.within.slots.trans hslots) hle hcode.1 hholds
      rw [List.length_append, ← Nat.add_assoc]
      exact yields_unary hlast ht hslots hcode.2 operand
  | .binary _ hlhs _ hrhs hlast =>
      obtain ⟨ht₁, ht₂⟩ := Context.typed_operands hlast ht
      obtain ⟨hdata₁, hdata₂⟩ := isData_operands hlast hdata
      have hslots' := hlast.within.slots.trans hslots
      simp only [Site.has_append, List.length_append, ← Nat.add_assoc] at hcode ⊢
      obtain ⟨⟨⟨hfirst, hmiddle⟩, hsecond⟩, hlastcode⟩ := hcode
      refine yields_binary hlast ht hdata hmiddle hlastcode (yields_expr hlhs hΓ ht₁ hdata₁
        (hrhs.within.slots.trans hslots') hle hfirst hholds) ?_
      intro stack locals w store hholds
      exact yields_expr hrhs hΓ ht₂ hdata₂ hslots' (Nat.le_trans hle hlhs.within.literals) hsecond
        hholds
  | @ExprCode.list _ _ _ _ _ note elements code _ helements =>
      obtain ⟨ty, hty, htys, helems⟩ := Context.exists_of_listTyped ht
      have hslot : slots.get? (.listLiteral t.literals) =
          some (t.slotOf (.listLiteral t.literals)) :=
        Supply.get?_literal (helements.within.slots.trans hslots)
      simp only [Site.has_append, List.length_append, ← Nat.add_assoc] at hcode ⊢
      obtain ⟨⟨harray, hfill⟩, hwrap⟩ := hcode
      -- Literals inside the elements have higher numbers, so they leave the slot of this one alone.
      obtain ⟨array, locals', w', hshown, hsteps, hgathers, hholds'⟩ :=
        exists_gathers hslot hle harray hholds
      have filled := fills_elements helements hΓ (List.eq_replicate_iff.1 htys).2 helems
        (by simpa [isData] using hdata) hslots (Nat.le_trans hle (Nat.le_succ _))
        (not_scratch_literal hslot (Nat.lt_succ_self _)) hfill hgathers hholds'
      rw [eval_list]
      show Yields _ _ _ _ _ _ _ _ note.ty _
      rw [hty]
      exact yields_list hshown hsteps filled hwrap
  | .call _ _ _ => simp [isData] at hdata

/-- The code of elements fills the array in their slot. -/
theorem fills_elements {hidden : Set Nat} {literals : Nat} {t u : Supply} {es : List Expr}
    {depth slot : Nat} {code : List Instruction} (h : ElementsCode env scope depth slot t es code u)
    (hΓ : env.symbols = Γ.symbols) {ty : Ty} (htys : ∀ ty' ∈ es.map Expr.ty, ty' = ty)
    (ht : Γ.allTyped scope es = true) (hdata : areData Γ.symbols scope es = true)
    (hslots : u.slots.Within slots) (hle : literals ≤ t.literals)
    (hslot : ¬ Scratch Γ slots t.literals slot) {pc : Nat} (hcode : s.Has pc code) {base : Point}
    {array : Nat} {data : List Datum} {locals : Array Value} {store : Store} {stack : List Value}
    {w : World}
    (hgathers : Gathers Γ slots hidden literals base slot array data ⟨pc, stack, locals, w⟩)
    (hholds : Holds Γ slots hidden ⟨pc, stack, locals, w⟩ store) :
    Fills s Γ slots hidden literals base slot array data ⟨pc, stack, locals, w⟩ (pc + code.length)
      stack ty (evalAll es store) := by
  match h with
  | .nil =>
      rw [evalAll]
      exact ⟨by simp, 0, locals, w, .refl s _, by simpa using hgathers, hholds⟩
  | @ElementsCode.cons _ _ _ _ _ v _ e rest code codes _ he hrest =>
      simp only [Context.allTyped, areData, Bool.and_eq_true, List.map_cons, List.mem_cons,
        forall_eq_or_imp] at ht hdata htys
      obtain ⟨rfl, htys⟩ := htys
      have regrouped : .load slot :: openCopy e.ty ++ code ++ closeCopy e.ty ++
          [.callVirtual .arrayAdd, .pop] ++ codes
          = .load slot :: (openCopy e.ty ++ code ++ closeCopy e.ty ++
            ([.callVirtual .arrayAdd, .pop] ++ codes)) := by simp
      rw [regrouped] at hcode
      obtain ⟨hload, htail⟩ := Site.has_cons.1 hcode
      obtain ⟨hvalue, hend⟩ := Site.has_append.1 htail
      obtain ⟨hadd, hcodes⟩ := Site.has_append.1 hend
      have hinner := (Site.has_append.1 (Site.has_append.1 hvalue).1).2
      have loaded : s.Steps ⟨pc, stack, locals, w⟩ 1 ⟨pc + 1, .ref array :: stack, locals, w⟩ :=
        hgathers.held ▸ Site.step_load hload
      have hholds' : Holds Γ slots hidden ⟨pc + 1, .ref array :: stack, locals, w⟩ store :=
        hholds.same rfl (.refl _)
      have first := yields_copied hvalue (fun stack locals w hholds =>
        yields_expr he hΓ ht.1 hdata.1 (hrest.within.slots.trans hslots)
          (Nat.le_refl t.literals) hinner
          hholds) hholds'
      have place : pc + (Instruction.load slot :: openCopy e.ty ++ code ++ closeCopy e.ty ++
          [Instruction.callVirtual .arrayAdd, Instruction.pop] ++ codes).length
          = pc + 1 + (openCopy e.ty ++ code ++ closeCopy e.ty).length + 2 + codes.length := by
        simp only [List.length_append, List.length_cons, List.length_nil]
        omega
      rw [place]
      refine Fills.cons hgathers hle hslot loaded first hadd ?_
      intro d store locals w hgathers hholds
      exact fills_elements hrest hΓ htys ht.2 hdata.2 hslots (Nat.le_trans hle he.within.literals)
        (fun hscratch => hslot (hscratch.mono he.within.literals)) hcodes hgathers hholds

end

/-- **Expressions compute what they mean.**  Every well-typed expression without calls is lowered,
unless it needs more slots than there are left.  Put its code at any place of any method, with any
operands on the stack and any objects on the heap, and let the variables hold data of their types.
Then the code does what `Yields` says: it pushes one value that stands for the datum of direct
evaluation, or it stops with a fault for the reason that direct evaluation fails for.  Nothing is
printed, objects that were there stay as they were, and of the variables only those of numbers
change, to what direct evaluation leaves in them.

In direct evaluation, arithmetic is that of integers, wrapped to 32 bits, and a text whose length
fits into them loses its last character, unless it is empty. -/
theorem lowerExpr_computes {env : Env} {Γ : Context} (hΓ : Agrees env Γ) {scope : ScopeId}
    {e : Expr} (ht : Γ.typed scope e = true) (hdata : isData Γ.symbols scope e = true)
    (start : State) : ((lowerExpr env scope e).RunsOut (e.need env.symbols scope) start ∨
      ∃ code u, (lowerExpr env scope e).Does start () (start.grown code u) ∧
        ∀ (s : Site) (p : Point) (slots : Slots) (store : Store), s.Has p.pc code →
          u.slots.Within slots → Holds Γ slots ∅ p store →
          Yields s Γ slots ∅ start.supply.literals p (p.pc + code.length) p.stack e.ty
            (eval e store)) ∧
      (∀ (op : BinaryOp) (a b : Int32), op.cond? = none → combine op (.int a) (.int b)
        = (calculate op a.toInt b.toInt).map fun n => .int (Int32.ofInt n)) ∧
      ∀ text : String, text.length ≤ Int32.maxValue.toInt → chopped (.text text) =
        if text.length = 0 then .error .stringIndex
        else .ok (.text (String.ofList text.toList.dropLast)) := by
  refine ⟨?_, ?_, ?_⟩
  · have settles : (lowerExpr env scope e).Settles false := hΓ.settles_lowerExpr e ht
    rcases settles.does_or_runsOut (law_fills.lowerExpr _ _ _) (law_needs.lowerExpr _ _ _)
        (s := start) (by simp) with ⟨_, r, hdoes⟩ | hout
    · obtain ⟨code, u, hcode, -⟩ := exprCode_of_does e hdoes
      refine .inr ⟨code, u, hcode.does start rfl rfl, ?_⟩
      intro s p slots store hstands hslots hholds
      exact yields_expr hcode hΓ.symbols ht hdata hslots (Nat.le_refl _) hstands hholds
    · exact .inl hout
  · intro op a b hop
    exact combine_eq_calculate hop a b
  · intro text htext
    exact Direct.chopped_text htext

/-- A list of an element of `xs`, at the place that `n` is counted up to, and of the length of `xs`.
-/
def pickExpr : Expr :=
  let xs := Build.ident "xs" (.list .int)
  Build.list .int [Build.index xs (Build.unary .inc (Build.ident "n" .int)), Build.len xs]

/-- A table that binds `n` to a number and `xs` to a list of numbers. -/
def pickSymbols : SymbolTable :=
  SymbolTable.initial.define .global (.var ⟨"n", .int⟩) |>.define .global (.var ⟨"xs", .list .int⟩)

/-- The types of its variables. -/
def pickVars (name : String) : Option Ty :=
  if name = "n" then some .int else if name = "xs" then some (.list .int) else none

theorem lowerExpr_computes_pickExpr :
    let start : Point := ⟨0, [.raw 5], #[.null, .null, .ref 1, .integer 0],
      { heap := { objects := #[.array #[.integer 7, .integer 9], .list (.ref 0)] } }⟩
    ∃ code u, (lowerExpr { symbols := pickSymbols } .global pickExpr).Does {} ()
      (State.grown {} code u) ∧ ∃ s : Site, s.Has 0 code ∧ ∃ n value locals w,
        s.Steps start n ⟨code.length, [value, .raw 5], locals, w⟩ ∧
        Denotes w.heap ∅ value (.list [.scalar (.int 9), .scalar (.int 2)]) ∧
        locals[3]?.getD .null = .integer 1 := by
  intro start
  let Γ : Context := .ofVars pickSymbols pickVars .void
  have typed : Γ.typed .global pickExpr = true := by decide +kernel
  have isdata : isData pickSymbols .global pickExpr = true := by decide +kernel
  have enough : ¬ (lowerExpr { symbols := pickSymbols } .global pickExpr).RunsOut
      (pickExpr.need pickSymbols .global) {} := by
    have ends : ((lowerExpr { symbols := pickSymbols } .global pickExpr).ending {}).1.toBool =
        true := by
      decide +kernel
    intro out
    simp [out.fails, Except.toBool] at ends
  obtain ⟨lowered, -⟩ := lowerExpr_computes
    (agrees_ofVars { symbols := pickSymbols } pickVars .void) typed isdata {}
  obtain ⟨code, u, hdoes, hyields⟩ := lowered.resolve_left enough
  have ended : ((lowerExpr { symbols := pickSymbols } .global pickExpr).ending {}).2
      = State.grown {} code u := congrArg Prod.snd hdoes
  obtain ⟨place, place'⟩ : u.slots.get? (.var "n") = some 3 ∧
    u.slots.get? (.var "xs") = some 2 := by
    let slots := ((lowerExpr { symbols := pickSymbols } .global pickExpr).ending {}).2.slots
    have computed : slots.get? (.var "n") = some 3 ∧ slots.get? (.var "xs") = some 2 := by
      decide +kernel
    simp only [slots] at computed
    rwa [ended] at computed
  have located : (labelTable code.toArray).toBool = true := by
    have computed : (labelTable
        ((lowerExpr { symbols := pickSymbols } .global pickExpr).ending {}).2.code).toBool =
        true := by
      decide +kernel
    rw [ended] at computed
    simpa [State.grown] using computed
  obtain ⟨labels, hlabels⟩ : ∃ labels, labelTable code.toArray = .ok labels := by
    cases h : labelTable code.toArray with
    | error e => simp [h, Except.toBool] at located
    | ok labels => exact ⟨labels, rfl⟩
  let s : Site :=
    { classFile := { name := "Main", superName := ClassName.object }, method := "pick",
      code := code.toArray, labels, use := .ifAny, callers := [], apart := apart_Main,
      located := hlabels }
  have stands : s.Has 0 code := by
    intro j i hj
    simpa [s] using hj
  let numbers : Datum := .list [.scalar (.int 7), .scalar (.int 9)]
  have list : Denotes start.world.heap ∅ (.ref 1) numbers := by
    have items : start.world.heap.get? 0 = some (.array #[.integer 7, .integer 9]) := rfl
    refine .list rfl items (by simp) rfl ?_
    intro i v d hv hd
    rcases i with _ | _ | i
    · obtain rfl := Option.some.inj hv
      obtain rfl := Option.some.inj hd
      exact .scalar (.int _)
    · obtain rfl := Option.some.inj hv
      obtain rfl := Option.some.inj hd
      exact .scalar (.int _)
    · simp at hd
  let store : Store := fun name => if name = "n" then .scalar (.int 0) else numbers
  have held : Holds Γ u.slots ∅ start store := by
    refine ⟨fun name ty hname => ?_, by simp⟩
    by_cases hn : name = "n"
    · subst hn
      obtain rfl : Ty.int = ty := by simpa [Γ, Context.ofVars, pickVars] using hname
      refine ⟨.scalar (.int 0), fun slot hslot => ?_⟩
      obtain rfl : 3 = slot := by simpa [place] using hslot
      exact .scalar (.int 0)
    · obtain ⟨rfl, rfl⟩ : name = "xs" ∧ Ty.list .int = ty := by
        simpa [Γ, Context.ofVars, pickVars, hn] using hname
      refine ⟨.list (by simp; exact ⟨.scalar _, .scalar _⟩), fun slot hslot => ?_⟩
      obtain rfl : 2 = slot := by simpa [place'] using hslot
      exact list
  have yields := hyields s start u.slots store stands (.refl _) held
  have evaluated : eval pickExpr store = .ok (.list [.scalar (.int 9), .scalar (.int 2)])
      (Function.update store "n" (.scalar (.int 1))) := rfl
  rw [evaluated] at yields
  obtain ⟨-, n, value, locals, w, hsteps, -, hvalue, hholds⟩ := yields
  refine ⟨code, u, hdoes, s, stands, n, value, locals, w, by simpa [start] using hsteps, hvalue, ?_⟩
  obtain ⟨a, ha, hone⟩ := ((hholds.vars "n" .int rfl).2 3 place).of_int (.scalar _)
  obtain rfl : 1 = a := by simpa using hone
  exact ha

end StackBackend.Data
