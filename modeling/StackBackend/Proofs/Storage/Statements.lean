import StackBackend.Proofs.Lowering.Shape.Statement
import StackBackend.Proofs.Storage.Expressions

/-!
# Statements keep to what they see

Between statements nothing is being made: no array is out of reach of the frame.  So a place is
settled if every frame that goes on from there runs until it is left, and sees nothing that was
hidden from it when it was entered.

* `Site.Settles` — such a place, for a number of steps; `Site.Exits` — the places a statement may go
  to, other than the one behind its code;
* `settles_quiet`, `settles_expr` — an instruction, and an expression, in front of a settled place;
* `StmtCode.settles`, `BlockCode.settles` — the code of statements and blocks.

A loop comes back to its first label, which takes a step: it is settled for `n` steps if it is
settled for fewer.
-/

namespace StackBackend

open Heap

namespace Site

open Lowering Point

section Places

variable (s : Site) (hidden : Set Nat) (p₀ : Point)

/-- **From a place, a frame runs until it is left**, whatever it has done since `p₀`. -/
def Settles (n pc : Nat) : Prop :=
  ∀ k ≤ n, ∀ d p, p₀.Arrives hidden ∅ ∅ pc [] d p →
    s.Passing 0 (s.code.size + 1) k p (s.Leaving hidden p₀)

/-- From a label, a frame runs until it is left. -/
def SettlesAt (n : Nat) (target : Label) : Prop :=
  ∃ place, s.code[place]? = some (.label target) ∧ s.Settles hidden p₀ n place

/-- **Where a statement may go**, other than behind its code. -/
structure Exits (n : Nat) (loop : Option LoopLabels) : Prop where
  calls : ∀ k < n, s.classFile.SparesHidden k
  breaks : ∀ {labels}, loop = some labels → s.SettlesAt hidden p₀ n labels.exit
  restarts : ∀ {labels}, loop = some labels → s.SettlesAt hidden p₀ n labels.start

end Places

variable {s : Site} {hidden : Set Nat} {p₀ : Point} {n k pc : Nat} {loop : Option LoopLabels}
  {i : Instruction} {l : Label} {code : List Instruction}

lemma Settles.mono (h : s.Settles hidden p₀ n pc) (hle : k ≤ n) : s.Settles hidden p₀ k pc :=
  fun j hj => h j (Nat.le_trans hj hle)

/-! ## Instructions -/

/-- **A quiet instruction** in front of settled places.  It takes a step. -/
lemma settles_quiet (hcode : s.code[pc]? = some i) (hquiet : i.isQuiet = true)
    (hnext : ∀ m < n, ∀ place, s.GoesTo i pc place → s.Settles hidden p₀ m place) :
    s.Settles hidden p₀ n pc := by
  intro k hk d p hp
  have inside : pc < s.code.size := (Array.getElem?_eq_some_iff.1 hcode).1
  refine passing_quiet hp hcode hquiet (.inr rfl) (by simp) (by simp) (Nat.zero_le _) (by omega)
    fun q place hpos hq hgoes _ => ?_
  exact hnext (k - 1) (by omega) place hgoes (k - 1) (Nat.le_refl _) _ q hq

/-- A sequence of quiet instructions. -/
lemma settles_straight (hhas : s.Has pc code) (hquiet : code.all Instruction.isQuiet = true)
    (hstraight : code.all Instruction.isStraight = true)
    (h : s.Settles hidden p₀ n (pc + code.length)) : s.Settles hidden p₀ n pc := by
  induction code generalizing pc with
  | nil => exact h
  | cons i rest ih =>
      obtain ⟨hi, hrest⟩ := has_cons.1 hhas
      obtain ⟨hfirst, hothers⟩ := Bool.and_eq_true_iff.1 hquiet
      obtain ⟨hfirst', hothers'⟩ := Bool.and_eq_true_iff.1 hstraight
      rw [List.length_cons, Nat.add_comm rest.length, ← Nat.add_assoc] at h
      refine settles_quiet hi hfirst fun m hm place hgoes => ?_
      obtain rfl := hgoes.next_of_isStraight hfirst'
      exact (ih hrest hothers hothers' h).mono (Nat.le_of_lt hm)

/-- Passing a label. -/
lemma settles_label (hcode : s.code[pc]? = some (.label l))
    (h : ∀ m < n, s.Settles hidden p₀ m (pc + 1)) : s.Settles hidden p₀ n pc := by
  refine settles_quiet hcode rfl fun m hm place hgoes => ?_
  obtain rfl := hgoes.next rfl
  exact h m hm

/-- Jumping to a label. -/
lemma SettlesAt.jump (h : s.SettlesAt hidden p₀ n l) (hcode : s.code[pc]? = some (.jump l)) :
    s.Settles hidden p₀ n pc := by
  obtain ⟨target, htarget, hsettles⟩ := h
  refine settles_quiet hcode rfl fun m hm place hgoes => ?_
  rcases goesTo_label rfl htarget hgoes with ⟨hends, -⟩ | rfl
  · simp [Instruction.endsBlock] at hends
  · exact hsettles.mono (Nat.le_of_lt hm)

lemma settles_ret (hcode : s.code[pc]? = some .ret) : s.Settles hidden p₀ n pc := by
  rintro k - d p ⟨hlater, rfl, -⟩
  exact .here ⟨none, .ret hcode, hlater.clear, hlater.kept, by simp⟩

/-- Without an operand there is nothing to return, and the run fails. -/
lemma settles_retValue (hcode : s.code[pc]? = some .retValue) : s.Settles hidden p₀ n pc := by
  rintro k - d p ⟨hlater, rfl, ops, hstack, -, hops⟩
  rw [List.append_nil] at hstack
  cases ops with
  | nil =>
      have inside : p.pc < s.code.size := (Array.getElem?_eq_some_iff.1 hcode).1
      refine .step hcode (Nat.zero_le _) (by omega) (sound_of_clear hlater.clear hcode
        (by simp [Instruction.IsLibrary]) (by simp [Frame.filled])) fun control w _ hexec => ?_
      simp [Frame.execute, Frame.pop, Frame.advanced, frame, hstack] at hexec
  | cons v rest =>
      exact .here ⟨some v, .value hcode hstack, hlater.clear, hlater.kept,
        fun x hx => hops x (by simp_all)⟩

/-- Falling off the end of the code. -/
lemma settles_end (hnone : s.code[pc]? = none) : s.Settles hidden p₀ n pc := by
  rintro k - d p ⟨hlater, rfl, -⟩
  exact .here ⟨none, .fall hnone, hlater.clear, hlater.kept, by simp⟩

/-! ## Expressions -/

lemma Has.length_le (h : s.Has pc code) (hne : code ≠ []) : pc + code.length ≤ s.code.size := by
  have last : s.code[pc + (code.length - 1)]? = some (code.getLast hne) :=
    h _ _ (by rw [List.getLast_eq_getElem, List.getElem?_eq_getElem])
  have inside := (Array.getElem?_eq_some_iff.1 last).1
  have := List.length_pos_of_ne_nil hne
  omega

/-- **An expression in front of a settled place.** -/
lemma settles_expr {env : Env} {scope : ScopeId} {depth : Nat} {t u : Supply} {e : Expr}
    (h : ExprCode env scope depth t e code u) (hcalls : ∀ k < n, s.classFile.SparesHidden k)
    (hhas : s.Has pc code) (hnext : s.Settles hidden p₀ n (pc + code.length)) :
    s.Settles hidden p₀ n pc := by
  by_cases hempty : code = []
  · subst hempty
    exact hnext
  intro k hk d p hp
  have computed := h.computes hcalls (.refl u.slots) hhas k hk hidden ∅ ∅ p hp.place (by simp)
    (Set.empty_subset _) hp.later.clear
  refine computed.seq (Nat.zero_le _) (Nat.le_succ_of_le (hhas.length_le hempty))
    fun q i hi hq => ?_
  exact hnext i (Nat.le_trans hi hk) _ q (hp.extend hq)

end Site

namespace Lowering

open Site

variable {s : Site} {hidden : Set Nat} {p₀ : Point} {n pc depth : Nat} {loop : Option LoopLabels}
  {env : Env} {scope : ScopeId} {t u : Supply} {stmt : Stmt} {code : List Instruction}

/-- A statement without a block of its own. -/
lemma PlainCode.settles (h : PlainCode env depth loop scope t stmt code u) (hhas : s.Has pc code)
    (hexits : s.Exits hidden p₀ n loop) (hnext : s.Settles hidden p₀ n (pc + code.length)) :
    s.Settles hidden p₀ n pc := by
  cases h with
  | assign _ _ hvalue =>
      obtain ⟨hcode, hstore⟩ := has_append.1 hhas
      rw [List.length_append, ← Nat.add_assoc] at hnext
      exact settles_expr hvalue.2 hexits.calls hcode (settles_straight hstore rfl rfl hnext)
  | assignElement _ _ _ _ hindex hvalue =>
      simp only [has_append, List.length_append, ← Nat.add_assoc] at hhas hnext
      obtain ⟨⟨⟨⟨hload, hfirst⟩, hunbox⟩, hsecond⟩, hset⟩ := hhas
      exact settles_straight hload rfl rfl (settles_expr hindex.2 hexits.calls hfirst
        (settles_straight hunbox rfl rfl (settles_expr hvalue.2 hexits.calls hsecond
          (settles_straight hset rfl rfl hnext))))
  | exitLoop hloop => exact (hexits.breaks hloop).jump (has_cons.1 hhas).1
  | nextLoop hloop => exact (hexits.restarts hloop).jump (has_cons.1 hhas).1
  | ret => exact settles_ret (has_cons.1 hhas).1
  | retValue hvalue =>
      obtain ⟨hcode, hret⟩ := has_append.1 hhas
      exact settles_expr hvalue.2 hexits.calls hcode (settles_retValue (has_cons.1 hret).1)
  | @put _ _ value what first hvalue _ =>
      rw [append_printCode] at hhas hnext
      obtain ⟨hconsole, hrest⟩ := has_cons.1 hhas
      obtain ⟨hcode, hprint⟩ := has_append.1 hrest
      have opening : s.Has pc [.getStatic consoleField] := by simpa using hconsole
      have place : pc + (.getStatic consoleField :: (first ++ printCode value.ty what)).length
          = pc + 1 + first.length + (printCode value.ty what).length := by
        rw [List.length_cons, List.length_append]
        omega
      rw [place] at hnext
      refine settles_straight opening rfl rfl (settles_expr hvalue.2 hexits.calls hcode
        (settles_straight hprint ?_ ?_ hnext)) <;>
      · generalize value.ty = ty
        cases ty <;> cases what <;> rfl
  | eval hexpr =>
      obtain ⟨hcode, hpop⟩ := has_append.1 hhas
      rw [List.length_append, ← Nat.add_assoc] at hnext
      refine settles_expr hexpr hexits.calls hcode (settles_straight hpop ?_ ?_ hnext) <;>
      · split <;> rfl

/-- **A conditional**, behind its condition. -/
lemma settles_branch {k : Nat} {second third : List Instruction}
    (hhas : s.Has pc (branchCode k second third))
    (hthen : ∀ {pc}, s.Has pc second → s.Settles hidden p₀ n (pc + second.length) →
      s.Settles hidden p₀ n pc)
    (helse : ∀ {pc}, s.Has pc third → s.Settles hidden p₀ n (pc + third.length) →
      s.Settles hidden p₀ n pc)
    (hnext : s.Settles hidden p₀ n (pc + (branchCode k second third).length)) :
    s.Settles hidden p₀ n pc := by
  simp only [branchCode, has_append, has_cons, has_nil, and_true, List.length_append,
    List.length_cons, List.length_nil, ← Nat.add_assoc] at hhas hnext
  obtain ⟨⟨⟨⟨⟨⟨hunbox, hzero⟩, hsecond⟩, hskip⟩, hlabel⟩, hthird⟩, hend⟩ := hhas
  have ends := settles_label hend fun m hm => hnext.mono (Nat.le_of_lt hm)
  have otherwise := settles_label hlabel fun m hm => (helse hthird ends).mono (Nat.le_of_lt hm)
  have skipped : s.Settles hidden p₀ n (pc + 2 + second.length) := by
    rw [skipCode] at hskip otherwise hend
    split at hskip
    · next hreturn =>
        rw [if_pos hreturn] at otherwise
        exact otherwise
    · exact SettlesAt.jump ⟨_, hend, ends⟩ (has_cons.1 hskip).1
  have stands : s.Has pc [.callVirtual .booleanValue] := by simpa using hunbox
  refine settles_straight stands rfl rfl (settles_quiet hzero rfl fun m hm place hgoes => ?_)
  rcases goesTo_label rfl hlabel hgoes with ⟨-, rfl⟩ | rfl
  · exact (hthen hsecond skipped).mono (Nat.le_of_lt hm)
  · exact otherwise.mono (Nat.le_of_lt hm)

/-- **A loop** is settled if it is settled for fewer steps: going through its label takes one. -/
lemma settles_loop {k : Nat} (hhas : s.Has pc (.label ⟨k⟩ :: code ++ [.jump ⟨k⟩, .label ⟨k + 1⟩]))
    (hbody : ∀ m < n, s.Exits hidden p₀ m (some ⟨⟨k⟩, ⟨k + 1⟩⟩) → s.Has (pc + 1) code →
      s.Settles hidden p₀ m (pc + 1 + code.length) → s.Settles hidden p₀ m (pc + 1))
    (hcalls : ∀ k < n, s.classFile.SparesHidden k)
    (hnext : s.Settles hidden p₀ n (pc + 1 + code.length + 2)) : s.Settles hidden p₀ n pc := by
  simp only [has_append, has_cons, has_nil, and_true, List.length_cons, ← Nat.add_assoc] at hhas
  obtain ⟨⟨hstart, hcode⟩, hjump, hend⟩ := hhas
  rw [Nat.add_right_comm pc] at hjump hend
  have round : ∀ m ≤ n, s.Settles hidden p₀ m pc := by
    intro m
    induction m using Nat.strong_induction_on with
    | _ m ih =>
        refine fun hm => settles_label hstart fun j hj => ?_
        have again : s.SettlesAt hidden p₀ j ⟨k⟩ := ⟨pc, hstart, ih j hj (by omega)⟩
        have behind : s.SettlesAt hidden p₀ j ⟨k + 1⟩ :=
          ⟨_, hend, settles_label hend fun i hi => hnext.mono (by omega)⟩
        refine hbody j (by omega) ⟨fun i hi => hcalls i (by omega), ?_, ?_⟩ hcode (again.jump hjump)
        · rintro _ ⟨⟩
          exact behind
        · rintro _ ⟨⟩
          exact again
  exact round n (Nat.le_refl n)

mutual

/-- **A statement in front of a settled place.** -/
theorem StmtCode.settles {loop : Option LoopLabels} {scope : ScopeId} {t u : Supply} {stmt : Stmt}
    {code : List Instruction} {n pc : Nat} (h : StmtCode env depth loop scope t stmt code u)
    (hhas : s.Has pc code) (hexits : s.Exits hidden p₀ n loop)
    (hnext : s.Settles hidden p₀ n (pc + code.length)) : s.Settles hidden p₀ n pc := by
  match h with
  | .plain hplain => exact hplain.settles hhas hexits hnext
  | .branch _ hcond hthen helse =>
      rw [append_branchCode] at hhas hnext
      obtain ⟨hfirst, hbranch⟩ := has_append.1 hhas
      rw [List.length_append, ← Nat.add_assoc] at hnext
      exact settles_expr hcond.2 hexits.calls hfirst (settles_branch hbranch
        (fun hcode => hthen.settles hcode hexits) (fun hcode => helse.settles hcode hexits) hnext)
  | .loop hbody =>
      rw [List.length_append, List.length_cons, ← Nat.add_assoc, ← Nat.add_assoc,
        Nat.add_right_comm pc] at hnext
      exact settles_loop hhas (fun m _ hexits' hcode => hbody.settles hcode hexits') hexits.calls
        hnext

theorem BlockCode.settles {loop : Option LoopLabels} {scope : ScopeId} {t u : Supply}
    {block : List Stmt} {code : List Instruction} {n pc : Nat}
    (h : BlockCode env depth loop scope t block code u) (hhas : s.Has pc code)
    (hexits : s.Exits hidden p₀ n loop) (hnext : s.Settles hidden p₀ n (pc + code.length)) :
    s.Settles hidden p₀ n pc := by
  match h with
  | .nil => exact hnext
  | .cons hstmt hrest =>
      obtain ⟨hfirst, hcodes⟩ := has_append.1 hhas
      rw [List.length_append, ← Nat.add_assoc] at hnext
      exact hstmt.settles hfirst hexits (hrest.settles hcodes hexits hnext)

end

end Lowering

end StackBackend
