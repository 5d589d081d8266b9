import StackBackend.Proofs.Storage.Readings
import StackBackend.Proofs.Storage.Sharing

/-!
# Evaluations

The parts of a run that evaluate expressions, and what stands between them.

* `Instruction.isCalm` — code without calls stores to no list, so lists keep their items
  (`retains_of_runs`);
* `Site.Evaluates` — the code of an expression is run through and leaves a value;
* `Site.Connects` — what stands between two evaluations;
* `ValueCode.evaluates` — a run that comes through the code of an expression has evaluated it.
-/

namespace StackBackend

open Heap Lowering Machine

/-! ## Code without calls -/

namespace Instruction

/-- Whether an instruction stays in its frame and stores to no list. -/
def isCalm : Instruction → Bool
  | invoke _ method => method.isOfLibrary fun m => m ≠ .closureInvoke ∧ m ≠ .listSet
  | ret | retValue => false
  | _ => true

@[simp] lemma isCalm_invoke (kind : InvokeKind) (m : LibraryMethod) :
    (invoke kind m.ref).isCalm = decide (m ≠ .closureInvoke ∧ m ≠ .listSet) :=
  MethodRef.isOfLibrary_ref m _

lemma staysPut_of_isCalm {i : Instruction} (h : i.isCalm = true) : i.staysPut = true := by
  cases i with
  | invoke kind method =>
      obtain ⟨m, rfl, hm⟩ := MethodRef.exists_of_isOfLibrary h
      rw [staysPut_invoke, decide_eq_true_eq]
      exact (of_decide_eq_true hm).1
  | ret | retValue => exact h
  | _ => rfl

end Instruction

namespace Lowering

open Instruction

variable {env : Env} {scope : ScopeId} {t u : Supply} {e : Expr} {code last : List Instruction}

lemma staysPut_of_calm (h : code.all isCalm = true) : code.all staysPut = true := by
  rw [List.all_eq_true] at h ⊢
  intro i hmem
  exact staysPut_of_isCalm (h i hmem)

lemma calm_downcast (ty : Ty) : (downcast ty).all isCalm = true := by
  cases ty <;> rfl

lemma calm_unboxing (ty : Ty) : (unboxing ty).all isCalm = true := by
  cases ty <;> rfl

lemma calm_elementCode (ty : Ty) : (elementCode ty).all isCalm = true := by
  rw [elementCode]
  split
  · rfl
  · exact calm_downcast ty

lemma calm_openCopy (ty : Ty) : (openCopy ty).all isCalm = true := by
  rw [openCopy]
  split <;> rfl

lemma calm_closeCopy (ty : Ty) : (closeCopy ty).all isCalm = true := by
  rw [closeCopy]
  split <;> rfl

lemma LeafCode.calm (h : LeafCode env scope t e code u) : code.all isCalm = true := by
  cases h with
  | int | bool | str | fn _ | pointer => rfl
  | var _ => exact calm_downcast _

lemma UnaryCode.calm {operand : Expr} (h : UnaryCode t e operand last u) :
    last.all isCalm = true := by
  cases h <;> rfl

lemma BinaryCode.calm {lhs rhs : Expr} {middle : List Instruction}
    (h : BinaryCode t e lhs rhs middle last u) :
    middle.all isCalm = true ∧ last.all isCalm = true := by
  cases h with
  | arith _ _ _ => exact ⟨rfl, rfl⟩
  | scalar _ _ =>
      rw [List.all_append, calm_unboxing, calm_unboxing]
      exact ⟨rfl, rfl⟩
  | @text _ op _ _ _ _ _ =>
      refine ⟨rfl, ?_⟩
      cases op <;> rfl
  | identity _ _ => exact ⟨rfl, rfl⟩
  | index _ _ => exact ⟨rfl, calm_elementCode _⟩

mutual

/-- **The code of an expression without calls stores to no list.** -/
theorem ExprCode.calm {depth : Nat} {t u : Supply} {e : Expr} {code : List Instruction}
    (h : ExprCode env scope depth t e code u) (hcalls : e.calls = []) : code.all isCalm = true := by
  match h with
  | .leaf hleaf => exact hleaf.calm
  | .unary _ hoperand hlast =>
      rw [hlast.calls] at hcalls
      rw [List.all_append, hoperand.calm hcalls, hlast.calm]
      rfl
  | .binary _ hlhs _ hrhs hlast =>
      rw [hlast.calls, List.append_eq_nil_iff] at hcalls
      obtain ⟨hmiddle, hafter⟩ := hlast.calm
      simp only [List.all_append, hlhs.calm hcalls.1, hrhs.calm hcalls.2, hmiddle, hafter,
        Bool.and_self]
  | .list _ helements =>
      rw [Expr.calls] at hcalls
      rw [List.all_append, List.all_append, helements.calm hcalls]
      rfl
  | .call _ _ _ => simp [Expr.calls] at hcalls

theorem ElementsCode.calm {depth slot : Nat} {t u : Supply} {es : List Expr}
    {code : List Instruction} (h : ElementsCode env scope depth slot t es code u)
    (hcalls : Expr.callsIn es = []) : code.all isCalm = true := by
  match h with
  | .nil => rfl
  | .cons _ he hrest =>
      rw [Expr.callsIn, List.append_eq_nil_iff] at hcalls
      simp only [List.all_append, List.all_cons, calm_openCopy, calm_closeCopy, he.calm hcalls.1,
        hrest.calm hcalls.2, Bool.and_true]
      rfl

end

end Lowering

/-! ## Lists that keep their items -/

/-- **Every list keeps its items.** -/
def Heap.Retains (h h' : Heap) : Prop :=
  ∀ l b items, h.Lists l b items → h'.Lists l b items

/-- Calm code leaves all lists as they are. -/
lemma Site.retains_of_runs {s : Site} {lo hi n : Nat} {p q : Point} {code : List Instruction}
    (hruns : Runs s.classFile (s.Region lo hi) (s.machine p) n (s.machine q))
    (hhas : s.Has lo code) (hhi : hi = lo + code.length)
    (hcalm : code.all Instruction.isCalm = true) : p.world.heap.Retains q.world.heap := by
  have quiet : ∀ m, s.Region lo hi m ∧ s.Along lo hi m → ∀ l, ¬ m.Assigns l := by
    rintro _ ⟨-, r, rfl, hlo, hr⟩ l ⟨kind, v, index, rest, hassigns, -⟩
    have inside : r.pc - lo < code.length := by omega
    have hcode := hhas (r.pc - lo) _ (List.getElem?_eq_getElem inside)
    rw [Nat.add_sub_cancel' hlo] at hcode
    have calm := List.all_eq_true.1 hcalm _ (List.getElem_mem inside)
    rw [Option.some.inj (hcode.symm.trans hassigns), Instruction.isCalm_invoke] at calm
    simp at calm
  have runs := region_of_has hruns hhas hhi (staysPut_of_calm hcalm)
  have kept : ∀ {m n m'}, Runs s.classFile (fun m => s.Region lo hi m ∧ s.Along lo hi m) m n m' →
      m.world.heap.Retains m'.world.heap := by
    intro m n m' h
    induction h with
    | refl => exact fun _ _ _ hlists => hlists
    | move hI hmove _ ih =>
        intro l b items hlists
        obtain ⟨target, turned, hassigns⟩ := hI.1.1.yields (.moves hmove)
        obtain ⟨items', hlists', -, rfl | ⟨l', htarget, -⟩⟩ := hlists.of_turns turned
        · exact ih l b items' hlists'
        · exact absurd (hassigns l' htarget) (quiet _ hI l')
  exact kept runs

/-! ## Evaluations -/

namespace Site

/-- **An expression is evaluated**: its code is run through, and leaves a value. -/
structure Evaluates (s : Site) (env : Env) (scope : ScopeId) (depth : Nat) (e : Expr) (a : Point)
    (v : Value) (b : Point) : Prop where
  code : ∃ t code u, ExprCode env scope depth t e code u ∧ s.Has a.pc code ∧
    b.pc = a.pc + code.length
  runs : ∃ n, Runs s.classFile (s.Inside a.pc b.pc) (s.machine a) n (s.machine b)
  stack : b.stack = v :: a.stack

/-- **A point leads to another in its frame**, and nothing but the operands changes. -/
structure Connects (s : Site) (a b : Point) : Prop where
  runs : ∃ n, Runs s.classFile (s.Along a.pc b.pc) (s.machine a) n (s.machine b)
  locals : b.locals = a.locals
  world : b.world = a.world

lemma Connects.extends {s : Site} {a b : Point} (h : s.Connects a b) {slots : Slots}
    {literals : Nat} : a.Extends slots literals b :=
  Point.extends_of_same h.locals (h.world ▸ .refl _)

end Site

namespace Lowering

open Site

variable {s : Site} {env : Env} {scope : ScopeId} {slots : Slots} {names : List String}
  {depth literals n pc d : Nat} {same : Set Nat} {p₀ p a b q : Point} {base : List Value}
  {code : List Instruction}

/-- A straight sequence is carried out in its frame. -/
lemma Straight.along {e : Nat} (h : Straight slots names d code e)
    (harrives : p₀.Arrives ∅ ∅ same pc base d a) (hhas : s.Has pc code)
    (hsame : same ⊆ Spared slots depth literals names) :
    s.Passing pc (pc + code.length) n a fun b =>
      p₀.Arrives ∅ ∅ same (pc + code.length) base e b ∧ s.Ran code a b ∧
      ∃ k, Runs s.classFile (s.Along a.pc b.pc) (s.machine a) k (s.machine b) := by
  refine (h.passing harrives hhas (by simp) hsame (Nat.le_refl _) (Nat.le_refl _)).bind
    (Nat.le_refl _) (Nat.le_refl _) ?_
  intro b k _ hb hruns
  have stays : code.all Instruction.staysPut = true := by
    have quiet := h.quiet
    rw [List.all_eq_true] at quiet ⊢
    intro i hmem
    exact Instruction.staysPut_of_isQuiet (quiet i hmem)
  obtain rfl := harrives.place
  have along := along_of_has hruns hhas rfl stays
  obtain ⟨r, hran, hr, hrest⟩ := (walks_of_runs along).ran (Nat.le_of_eq hb.place.symm) hhas h.depth
    (Nat.le_refl _)
  obtain rfl := hrest.eq_of_le (Nat.le_of_eq hr.symm)
  rw [← hb.place] at along
  exact .here ⟨hb, hran, k, along⟩

/-- **A run that comes through the code of an expression has evaluated it.**  Without calls no list
has changed, and the value of an expression without effects is what can be seen. -/
theorem ValueCode.evaluates {t u : Supply} {e : Expr} (h : ValueCode env scope depth t e code u)
    (hcalls : ∀ k, s.classFile.SparesHidden k) (hwithin : u.slots.Within slots)
    (hhas : s.Has a.pc code) (hclear : a.Clear ∅ ∅)
    (hsame : same ⊆ Spared slots depth t.literals e.counted) :
    s.Passing a.pc (a.pc + code.length) n a fun b =>
      a.Arrives ∅ ∅ same (a.pc + code.length) a.stack 1 b ∧
      ∃ v, s.Evaluates env scope depth e a v b ∧
        (e.calls = [] → a.world.heap.Retains b.world.heap) ∧
        (e.calls = [] → e.counted = [] → Sighted env scope slots e a v b) := by
  obtain ⟨hproduces, hcode⟩ := h
  have computed := hcode.computes (n := n) (fun k _ => hcalls k) hwithin hhas n (Nat.le_refl n) ∅ ∅
    same a rfl (by simp) hsame hclear
  rw [if_pos hproduces] at computed
  refine computed.bind (Nat.le_refl _) (Nat.le_refl _) ?_
  intro b k _ hb hruns
  obtain ⟨ops, hstack, hlength, -⟩ := hb.stack
  obtain ⟨v, rfl⟩ := List.length_eq_one_iff.1 hlength
  refine .here ⟨hb, v, ⟨⟨t, code, u, hcode, hhas, hb.place⟩, ⟨k, ?_⟩, hstack⟩, ?_, ?_⟩
  · rw [hb.place]
    exact hruns.widen fun _ hm => hm.2
  · intro hnone
    exact retains_of_runs hruns hhas rfl (hcode.calm hnone)
  · intro hnone hcounted
    have along := along_of_has hruns hhas rfl (staysPut_of_calm (hcode.calm hnone))
    exact hcode.sighted hnone hcounted hwithin (walks_of_runs along) hhas hb.place hstack

end Lowering

end StackBackend
