import StackBackend.Proofs.Lowering.Occurrences
import StackBackend.Proofs.Storage.Sharing

/-!
# Calls pass arguments and results faithfully

The arguments of a call get into an array that stands in a slot of the frame while they are
evaluated, and calls of the same callee at the same depth share that slot.  Still every method is
entered with just the values of its arguments, and the caller finds its operands and its variables
as they were.

* `exists_stands` — every call of an assembled program stands in a method of the class;
* `calls_faithful` — what a run does that gets to a call, and through it.
-/

namespace StackBackend

open Heap Lowering Machine

/-! ## Calls in a class -/

/-- The calls in a body stand in its code. -/
lemma Lowering.BodyCode.stands {symbols : SymbolTable} {shared : Shared} {slots : Slots}
    {body : List Stmt} {scope : ScopeId} {ret : Ty} {code : Code} {issued : Nat}
    (h : BodyCode symbols shared slots body scope ret code issued) :
    ∀ call ∈ Stmt.callsIn body, Stands ⟨symbols, shared.returns⟩ call code.toList := by
  intro call hcall
  cases h with
  | @mk code u hblock =>
      obtain ⟨last, -, hclosed⟩ := Typing.toList_closeBody ret code
      rw [hclosed]
      exact (hblock.stands call hcall).append_left

section Class

variable {p : CheckedProgram} {config : Config} {c : ClassFile} {issued : Nat}

/-- **Every call of a program stands in a method** of its class. -/
lemma exists_stands (h : assemble p config = .ok (c, issued)) :
    ∀ body ∈ p.bodies, ∀ call ∈ Stmt.callsIn body, ∃ method ∈ c.methods, ∃ returns,
      Stands ⟨p.symbols, returns⟩ call method.code.toList := by
  intro body hbody call hcall
  obtain ⟨-, functions, shared, code, hfunctions, hentry, rfl⟩ := assemble_ok_iff.1 h
  rcases List.mem_cons.1 hbody with rfl | hbody
  · refine ⟨entryMethod config code, by simp, shared.returns, ?_⟩
    have stands := hentry.stands call hcall
    have behind : Stands ⟨p.symbols, shared.returns⟩ call
        ([.load 0, .construct .objectInit] ++ code.toList) := stands.append_right
    simpa [entryMethod, Lowering.method] using behind
  · obtain ⟨name, hname, hmap⟩ := List.mem_filterMap.1 hbody
    obtain ⟨decl, hdecl, rfl⟩ := Option.map_eq_some_iff.1 hmap
    obtain ⟨_, _, _, _, _, method, -, -, hfunction, hfound⟩ := hfunctions.exists_find? hname
    refine ⟨method, by simp [List.mem_of_find?_eq_some hfound], ?_⟩
    cases hfunction with
    | @mk binding decl' _ code issued _ hdecl' _ _ hbody =>
        obtain rfl : decl = decl' := Option.some.inj (hdecl.symm.trans hdecl')
        exact ⟨_, hbody.stands call hcall⟩

end Class

/-- A state whose labels are those of its code is a site at a point. -/
lemma Machine.Grounded.exists_site {c : ClassFile} {m : Machine} (h : m.Grounded)
    (hapart : ∀ m : LibraryMethod, m.ref.owner ≠ c.name) :
    ∃ (s : Site) (p : Point), s.classFile = c ∧ s.machine p = m := by
  obtain ⟨⟨method, code, labels, pc, stack, locals, use⟩, callers, world⟩ := m
  exact ⟨{ classFile := c, method, code, labels, use, callers, apart := hapart
           located := h.frame.located }, ⟨pc, stack, locals, world⟩, rfl, rfl⟩

/-- From such a state nothing is hidden. -/
lemma Machine.Grounded.clear {s : Site} {p : Point} (h : (s.machine p).Grounded) : p.Clear ∅ ∅ :=
  ⟨⟨h.heap, h.heap, by simp⟩, h.frame.stack, h.frame.locals, fun slot _ => h.frame.locals slot⟩

/-- A run does not end well inside code without returns. -/
lemma Site.not_inside_of_stops {s : Site} {lo hi k : Nat} {m : Machine} {outcome : Outcome}
    {w : World} (h : Stops s.classFile m k (.ok outcome) w)
    (hcode : ∀ pc, lo ≤ pc → pc < hi → ∃ i, s.code[pc]? = some i ∧ i.IsLibrary ∧ i ≠ .ret ∧
      i ≠ .retValue) : ¬ s.Inside lo hi m := by
  rintro (⟨r, rfl, hlo, hhi⟩ | ⟨above, r, hcallers, -, -⟩)
  · obtain ⟨i, hi, hlibrary, hret, hretValue⟩ := hcode r.pc hlo hhi
    cases h with
    | @exit j control _ _ hj hexec hfollow =>
        obtain rfl : i = j := Option.some.inj (hi.symm.trans hj)
        have leads := Frame.execute_leadsTo s.apart hlibrary hexec
        cases control with
        | next _ | enter _ _ => simp [follow] at hfollow
        | leave _ _ => exact leads.elim hret hretValue
    | fall hnone _ => simp [machine, frame, hi] at hnone
  · cases h with
    | @exit _ control _ _ _ _ hfollow =>
        rw [hcallers] at hfollow
        cases control <;> cases above <;> simp [follow] at hfollow
    | fall _ hnil => simp [hnil] at hcallers

/-- Nor inside the code of an expression, which has none. -/
lemma Site.not_inside_of_stays {s : Site} {lo k : Nat} {m : Machine} {outcome : Outcome} {w : World}
    {code : List Instruction} (hhas : s.Has lo code)
    (hstays : ∀ i ∈ code, i.staysPut = true ∨ i = .callVirtual .closureInvoke)
    (h : Stops s.classFile m k (.ok outcome) w) : ¬ s.Inside lo (lo + code.length) m := by
  refine not_inside_of_stops h fun pc hlo hpc => ?_
  have inside : pc - lo < code.length := by omega
  have hcode := hhas (pc - lo) _ (List.getElem?_eq_getElem inside)
  rw [Nat.add_sub_cancel' hlo] at hcode
  refine ⟨_, hcode, ?_⟩
  rcases hstays _ (List.getElem_mem inside) with hputs | hcall
  · refine ⟨Instruction.isLibrary_of_staysPut hputs, ?_, ?_⟩ <;> intro hret <;>
      simp [hret, Instruction.staysPut] at hputs
  · rw [hcall]
    exact ⟨by rintro _ _ ⟨⟩; exact ⟨_, rfl⟩, by simp [Instruction.callVirtual],
      by simp [Instruction.callVirtual]⟩

/-- A request that is answered is opened, and its run ends well. -/
lemma Session.exists_run {session : Session} {request : Request}
    (h : (session.answer request).1.toOption.isSome = true) :
    ∃ first n m k outcome w, session.opening request = .ok first ∧
      Leads session.classFile first n m ∧ Stops session.classFile m k (.ok outcome) w := by
  cases hfirst : session.opening request with
  | error e => simp [session.answer_of_error hfirst, Except.toOption] at h
  | ok first =>
      have ends := run_ends session.classFile session.stepLimit (session.stepLimit - session.steps)
        session.steps first
      rw [session.answer_of_opening hfirst] at h
      generalize run session.classFile session.stepLimit (session.stepLimit - session.steps)
        session.steps first = e at ends h
      cases ends with
      | limit _ _ => simp [Except.toOption] at h
      | @stops n k m result w hleads hstops _ =>
          cases result with
          | error e => simp [Except.toOption] at h
          | ok outcome => exact ⟨first, n, m, k, outcome, w, rfl, hleads, hstops⟩

/-! ## A program -/

section Pick

open Build

/-- A call among whose arguments is a call of the same function. -/
def pickArgs : List Expr :=
  [call "pick" [int 1, list .int [int 2]] .int, list .int [int 3]]

/-- A program with nested calls. -/
def pickProgram : CheckedProgram :=
  ({} : ProgramDraft).function "pick" [⟨"n", .int⟩, ⟨"xs", .list .int⟩] .int
      [ret (some (ident "n" .int))]
    |>.function "twice" [] .int [ret (some (call "pick" pickArgs .int))]
    |>.finish [put (call "twice" [] .int)]

variable {c : ClassFile} {issued : Nat}

/-- The function with the nested calls is opened, and ends well. -/
lemma exists_run_twice (h : assemble pickProgram {} = .ok (c, issued)) :
    ∃ first n m k outcome w,
      ({ classFile := c } : Session).opening (.invoke .null "twice" []) = .ok first ∧
      Leads c first n m ∧ Stops c m k (.ok outcome) w := by
  have made : ((assemble pickProgram {}).toOption.map fun r =>
      (({ classFile := r.1 } : Session).answer (.invoke .null "twice" [])).1.toOption.isSome)
        = some true := by
    decide +kernel
  rw [h] at made
  exact Session.exists_run (Option.some.inj made)

/-- Its method returns at the end only. -/
lemma calm_twice (h : assemble pickProgram {} = .ok (c, issued)) {method : Method}
    (hresolve : c.resolve "twice" = .ok method) {i : Instruction}
    (hi : i ∈ method.code.toList.dropLast) :
    i.staysPut = true ∨ i = .callVirtual .closureInvoke := by
  have made : ((assemble pickProgram {}).toOption.bind fun r => (r.1.resolve "twice").toOption.map
      fun method => method.code.toList.dropLast.all fun i =>
        i.staysPut || i = .callVirtual .closureInvoke) = some true := by
    decide +kernel
  have calm : ∀ i ∈ method.code.toList.dropLast,
      i.staysPut = true ∨ i = .callVirtual .closureInvoke := by
    simpa [h, hresolve, Except.toOption] using made
  exact calm i hi

/-- The code of a block that returns a value. -/
lemma Lowering.BlockCode.exists_value {env : Env} {depth : Nat} {loop : Option LoopLabels}
    {scope : ScopeId} {t u : Supply} {note : Span} {value : Expr} {code : List Instruction}
    (h : BlockCode env depth loop scope t [.ret note (some value)] code u) :
    ∃ own, ExprCode env scope depth t value own u ∧ code = own ++ [.retValue] := by
  cases h with
  | cons hstmt hrest =>
      cases hrest
      cases hstmt with
      | plain hplain =>
          cases hplain with
          | retValue hvalue => exact ⟨_, hvalue.2, by simp⟩

/-- The code of its nested calls. -/
lemma exists_code_twice (h : assemble pickProgram {} = .ok (c, issued)) :
    ∃ method returns scope t code u binding, c.resolve "twice" = .ok method ∧
      method.isStatic = false ∧
      ExprCode ⟨pickProgram.symbols, returns⟩ scope 0 t (call "pick" pickArgs .int) code u ∧
      pickProgram.symbols.lookup scope "pick" = some (.fn binding) ∧
      ∃ last, method.code.toList = code ++ .retValue :: last := by
  obtain ⟨_, _, _, _, _, method, -, -, hfunction, hfound⟩ :=
    method?_function h (show "twice" ∈ pickProgram.reachable by decide) (by decide)
  have hresolve := Frame.resolve_of_method? hfound
  have bound : ((pickProgram.symbols.functionBinding? .global "twice").bind fun binding =>
      pickProgram.symbols.functionBinding? binding.scope "pick").isSome = true := by decide +kernel
  cases hfunction with
  | @mk binding decl _ _ _ hbinding hdecl _ _ hbody =>
      obtain rfl : _ = decl := Option.some.inj (Eq.trans (by rfl) hdecl)
      rw [hbinding, Option.bind_some] at bound
      obtain ⟨callee, hcallee⟩ := Option.isSome_iff_exists.1 bound
      cases hbody with
      | @mk code u hblock =>
          obtain ⟨last, -, hclosed⟩ := Typing.toList_closeBody binding.returnType code
          obtain ⟨own, hown, rfl⟩ := hblock.exists_value
          exact ⟨_, _, _, _, own, u, callee, hresolve, rfl, hown,
            SymbolTable.functionBinding?_eq_some.1 hcallee, last, hclosed.trans (by simp)⟩

/-- It starts with its nested calls, and does not end inside them. -/
lemma exists_site_twice (h : assemble pickProgram {} = .ok (c, issued)) {first : Machine}
    (hfirst : ({ classFile := c } : Session).opening (.invoke .null "twice" []) = .ok first) :
    ∃ (s : Site) (returns : NameMap Ty) (scope : ScopeId) (t : Supply) (code : List Instruction)
      (u : Supply) (binding : FunctionBinding),
      s.classFile = c ∧ s.machine ⟨0, [], #[.null], ({} : World).enter 1⟩ = first ∧
      ExprCode ⟨pickProgram.symbols, returns⟩ scope 0 t (call "pick" pickArgs .int) code u ∧
      s.Has 0 code ∧ pickProgram.symbols.lookup scope "pick" = some (.fn binding) ∧
      ∀ m k outcome w, Stops c m k (.ok outcome) w → ¬ s.Inside 0 (0 + code.length) m := by
  obtain ⟨method, returns, scope, t, code, u, binding, hresolve, hstatic, hcode, hcallee, last,
    hlist⟩ := exists_code_twice h
  obtain ⟨frame, hframe, rfl⟩ := Session.opening_eq_ok.1 hfirst
  obtain ⟨method', hresolve', hcall⟩ := bind_ok hframe
  obtain rfl : method = method' := Except.ok.inj (hresolve.symm.trans hresolve')
  have hapart : ∀ m : LibraryMethod, m.ref.owner ≠ c.name := name_of_assemble h ▸ apart_Main
  obtain ⟨s, rfl, hsite, -, -, hmachine⟩ := Typing.exists_site hapart hcall []
  simp only [Method.entryLocals, hstatic, Bool.false_eq_true, if_false,
    Option.getD_some] at hmachine
  have listed : s.code.toList = [] ++ (code ++ .retValue :: last) := by
    rw [hsite, hlist, List.nil_append]
  have hhas : s.Has 0 code := (Site.has_append.1 (Typing.has_of_toList listed)).1
  refine ⟨s, returns, scope, t, code, u, binding, rfl, (hmachine _).symm, hcode, hhas, hcallee,
    fun m k outcome w hstops => Site.not_inside_of_stays hhas (fun i hi => ?_) hstops⟩
  refine calm_twice h hresolve ?_
  rw [hlist, List.dropLast_append_of_ne_nil (by simp)]
  exact List.mem_append_left _ hi

end Pick

/-! ## Faithful calls -/

/-- **Calls pass arguments and results faithfully.**  Every call of a program that assembles has
code in a method of the class.  Take a run of the entry point, of a method or of bare code, from a
heap that may hold any objects, as long as references lead to objects.  Whenever it gets to the code
of a call whose callee stands for a function, all that follows is in that code or in methods called
from it, until the run has come through it: then the arguments have been evaluated once each, from
left to right, the method of the function has been entered once, with the receiver and the values of
the arguments as locals, lists as new lists, what it returned is on the stack, unless the call is
void, and no variable has changed but those that the arguments count up or down. -/
theorem calls_faithful {program : CheckedProgram} {config : Config} {c : ClassFile} {issued : Nat}
    (h : assemble program config = .ok (c, issued))
    (hapart : ∀ m : LibraryMethod, m.ref.owner ≠ config.className) (session : Session)
    (request : Request) (hclass : session.classFile = c) (hheap : session.world.heap.Guards ∅)
    (hrequest : request.Grounded session.world.heap) :
    (∀ body ∈ program.bodies, ∀ call ∈ Stmt.callsIn body, ∃ method ∈ c.methods, ∃ returns,
      Stands ⟨program.symbols, returns⟩ call method.code.toList) ∧
    ∀ first, session.opening request = .ok first →
      ∀ n m, Leads c first n m →
        (∃ (s : Site) (p : Point), s.classFile = c ∧ s.machine p = m) ∧
        ∀ (s : Site) (p : Point), s.classFile = c → s.machine p = m →
          ∀ env scope depth t note note' name args code u slots,
            ExprCode env scope depth t (.call note (.ident note' name) args) code u →
            u.slots.Within slots → s.Has p.pc code →
            ∀ receiver f, Site.Denotes env scope slots name p receiver f →
              f ∈ program.reachable → f ≠ "main" →
              ∃ method before after, c.resolve f = .ok method ∧
                FunctionCode config program before f method after ∧
                (∀ vs, method.entryLocals receiver vs = (receiver :: vs).toArray) ∧
                ∀ k, Passes c (s.Inside p.pc (p.pc + code.length)) k m fun m' => ∃ q,
                  m' = s.machine q ∧ q.pc = p.pc + code.length ∧
                  s.Performs env scope depth args (callType env scope name note.ty) method receiver
                    p q ∧
                  ∀ x slot, x ∉ Expr.countedIn args → slots.get? (.var x) = some slot →
                    q.locals[slot]?.getD .null = p.locals[slot]?.getD .null := by
  rw [← name_of_assemble h] at hapart
  refine ⟨exists_stands h, fun first hfirst n m hleads => ?_⟩
  have grounded := (session.grounded_of_opening hheap hrequest hfirst).of_leads hleads
  refine ⟨grounded.exists_site hapart, ?_⟩
  rintro s p rfl rfl env scope depth t note note' name args code u slots hcode hwithin hhas receiver
    f hdenotes hf hmain
  obtain ⟨_, _, _, before, after, method, -, -, hfunction, hfound⟩ := method?_function h hf hmain
  have hresolve := Frame.resolve_of_method? hfound
  have passed : ∀ vs, method.entryLocals receiver vs = (receiver :: vs).toArray := by
    cases hfunction
    exact fun vs => rfl
  refine ⟨method, before, after, hresolve, hfunction, passed, fun k => ?_⟩
  have performed := hcode.performs (n := k) (fun i _ => sparesHidden h i) hwithin hhas
    grounded.clear
    (show { slot | ∃ x, x ∉ Expr.countedIn args ∧ slots.get? (.var x) = some slot } ⊆ _ from
      fun slot hslot => .inr hslot)
  refine Passes.bind performed (fun _ hm => hm.2) ?_
  rintro _ i - ⟨q, rfl, hq_pc, hq_same, hq⟩ -
  obtain ⟨method', hresolve', hperforms⟩ := hq receiver f hdenotes
  obtain rfl : method = method' := Except.ok.inj (hresolve.symm.trans hresolve')
  exact .here ⟨q, rfl, hq_pc, hperforms, fun x slot hx hslot => hq_same slot ⟨x, hx, hslot⟩⟩

theorem calls_faithful_pickProgram :
    ∃ c issued first, assemble pickProgram {} = .ok (c, issued) ∧
      ({ classFile := c } : Session).opening (.invoke .null "twice" []) = .ok first ∧
      ∃ (s : Site) (p q : Point) (env : Env) (scope : ScopeId) (method : Method),
        s.classFile = c ∧ s.machine p = first ∧ c.resolve "pick" = .ok method ∧
        s.Performs env scope 0 pickArgs (callType env scope "pick" .int) method .null p q := by
  cases h : assemble pickProgram {} with
  | error e =>
      have made : (assemble pickProgram {}).toOption.isSome = true := by decide +kernel
      simp [h, Except.toOption] at made
  | ok r =>
      obtain ⟨c, issued⟩ := r
      obtain ⟨first, n, m, k, outcome, w, hfirst, hleads, hstops⟩ := exists_run_twice h
      obtain ⟨s, returns, scope, t, code, u, binding, hs, hstart, hcode, hhas, hcallee, houtside⟩ :=
        exists_site_twice h hfirst
      have faithful := (calls_faithful h apart_Main { classFile := c } (.invoke .null "twice" [])
        rfl guards_empty (by simp [Request.Grounded])).2 first hfirst 0 _ .refl
      obtain ⟨method, before, after, hresolve, -, -, hpasses⟩ :=
        faithful.2 s _ hs hstart _ scope 0 t _ _ "pick" pickArgs code u u.slots hcode (.refl _) hhas
          .null "pick" (.fn hcallee) (by decide) (by decide)
      rcases hpasses n n m (Nat.le_refl n) hleads with
        hinside | ⟨_, i, j, ⟨q, rfl, -, hperforms, -⟩, -, -, -⟩
      · exact absurd hinside (houtside m k outcome w hstops)
      · exact ⟨c, issued, first, rfl, hfirst, s, _, q, _, scope, method, hs, hstart, hresolve,
          hperforms⟩

end StackBackend
