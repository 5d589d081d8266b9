import StackBackend.Proofs.Storage.Statements
import StackBackend.Proofs.Typing.Methods

/-!
# Methods keep to what they see

Every method of an assembled class, entered with anything, touches nothing that is hidden from its
locals, and every state on its way is sound.

* `BodyCode.settles` — the code of a body, wherever it stands at the end of a method;
* `returns_entryPoint` — the entry point, which makes an instance and calls the constructor;
* `sparesHidden` — all methods of a class, for any number of steps.

Methods call each other, so all of them spare what is hidden at once, by induction on the number of
steps.
-/

namespace StackBackend

open Heap Lowering

namespace Lowering

open Site

/-- **A body stands settled** at the end of the code of a method. -/
lemma BodyCode.settles {s : Site} {hidden : Set Nat} {p₀ : Point} {n : Nat} {symbols : SymbolTable}
    {shared : Shared} {slots : Slots} {body : List Stmt} {scope : ScopeId} {ret : Ty} {code : Code}
    {issued : Nat} {before : List Instruction}
    (h : BodyCode symbols shared slots body scope ret code issued)
    (hcode : s.code.toList = before ++ code.toList) (hcalls : ∀ k < n, s.classFile.SparesHidden k) :
    s.Settles hidden p₀ n before.length := by
  cases h with
  | @mk code u hblock =>
      obtain ⟨last, hlast, hclosed⟩ := Typing.toList_closeBody ret code
      rw [hclosed] at hcode
      obtain ⟨hbody, hrest⟩ := has_append.1 (Typing.has_of_toList hcode)
      refine hblock.settles hbody ⟨hcalls, by simp, by simp⟩ ?_
      rcases hlast with rfl | rfl
      · refine settles_end ?_
        rw [← Array.getElem?_toList, hcode, List.getElem?_eq_none (by simp)]
      · exact settles_ret (has_cons.1 hrest).1

/-- The method of a function has the code of a body. -/
lemma FunctionsCode.exists_body {config : Config} {p : CheckedProgram} {shared shared' : Shared}
    {names : List String}
    {methods : List Method} (h : FunctionsCode config p shared names methods shared') {m : Method}
    (hm : m ∈ methods) : ∃ shared slots body scope ret issued,
      BodyCode p.symbols shared slots body scope ret m.code issued := by
  induction h with
  | nil => simp at hm
  | cons hfirst _ ih =>
      rcases List.mem_cons.1 hm with rfl | hm
      · cases hfirst with
        | mk _ _ _ _ hbody => exact ⟨_, _, _, _, _, _, hbody⟩
      · exact ih hm

end Lowering

namespace Site

variable {s : Site} {hidden : Set Nat} {p : Point} {n : Nat}

lemma Settles.returns (h : s.Settles hidden p n 0) (hpc : p.pc = 0) (hstack : p.stack = [])
    (hclear : p.Clear hidden ∅) : s.Returns hidden n p := by
  have started := hclear.arrives ∅
  rw [hpc, hstack] at started
  exact h n (Nat.le_refl n) 0 p started

/-- **The entry point** makes an instance, calls the constructor and returns. -/
lemma returns_entryPoint {config : Config} (hname : s.classFile.name = config.className)
    {method : Method} (hresolve : s.classFile.resolve constructorName = .ok method)
    (hcode : s.code = (entryPoint config).code) (hcalls : ∀ k < n, s.classFile.SparesHidden k)
    (hpc : p.pc = 0) (hstack : p.stack = []) (hclear : p.Clear hidden ∅) :
    s.Returns hidden n p := by
  obtain ⟨_, _, locals, heap, printed, opened⟩ := p
  subst hpc hstack
  have hnew : s.code[0]? = some (.new config.className) := by rw [hcode]; rfl
  have hinvoke : s.code[1]?
      = some (.invoke .special ⟨config.className, constructorName, "()V"⟩) := by
    rw [hcode]
    rfl
  have hret : s.code[2]? = some .ret := by rw [hcode]; rfl
  have size : s.code.size = 3 := by rw [hcode]; rfl
  let made : Point := ⟨1, [.ref heap.objects.size], locals,
    ⟨(heap.alloc (.uninit config.className)).2, printed, opened⟩⟩
  let marked : World := ⟨(heap.alloc (.inst config.className)).2, printed, opened⟩
  have called := Typing.execute_constructor hname hresolve heap locals printed opened
    (p := made) rfl
    (q := ⟨2, [], locals, marked⟩) rfl
  have turns : Turns hidden .null heap marked.heap :=
    turns_alloc hclear.sealed (by simp [Obj.values]) (by simp)
  have fresh : heap.objects.size ∉ hidden := fun h => Nat.lt_irrefl _ (hclear.sealed.bounded _ h)
  have passed : ∀ v ∈ [Value.ref heap.objects.size], marked.heap.Sees hidden v := by
    simp [marked, size_alloc, fresh]
  refine passing_known (hclear.arrives ∅) hnew rfl (Nat.zero_le _) (by simp) (by simp)
    (Nat.zero_le _) (by simp) made rfl fun h₁ => ?_
  have sound : Machine.Sound s.classFile (s.machine made) := by
    refine ⟨s.located, h₁.later.clear.stack, h₁.later.clear.held, h₁.later.clear.sealed.grounded,
      fun i hi => ?_⟩
    obtain rfl := Option.some.inj (hinvoke.symm.trans hi)
    have sealed : made.world.heap.Sealed ∅ :=
      ⟨h₁.later.clear.sealed.grounded, h₁.later.clear.sealed.grounded, by simp⟩
    have waiting : made.world.heap.get? heap.objects.size = some (.uninit config.className) := by
      simp [made]
    show Turns ∅ _ _ ((s.frame made).advanced.execute s.classFile _ made.world).2.heap
    rw [called, Frame.heap_callOwn]
    show Turns ∅ _ _ (heap.alloc (.inst config.className)).2
    rw [← set_alloc heap (.uninit config.className)]
    exact turns_init sealed waiting (by simp) (by simp [Obj.values]) (by simp)
  refine (passing_callOwn (fun k hk => hcalls k (by omega)) hinvoke sound called turns.sealed
    passed).seq (Nat.zero_le _) (by rw [size]; simp [made]) ?_
  rintro _ k - ⟨_, result, w, -, -, rfl, hsealed, hkept, hsees⟩
  refine .here ⟨none, .ret hret, hclear.move hsealed
    (Nat.le_trans turns.kept.grows hkept.grows) _ ?_, turns.kept.trans hkept, by simp⟩
  intro v hv
  cases result with
  | none => simp [ResultUse.pushed] at hv
  | some x =>
      obtain rfl : v = x := by simpa [ResultUse.pushed] using hv
      exact .inr (hsees v rfl).grounded

end Site

/-! ## Classes -/

variable {p : CheckedProgram} {config : Config} {c : ClassFile} {issued : Nat}

/-- **Every method of an assembled class keeps to what it sees**, for any number of steps. -/
theorem sparesHidden (h : assemble p config = .ok (c, issued)) (n : Nat) : c.SparesHidden n := by
  obtain ⟨-, functions, shared, code, hfunctions, hbody, rfl⟩ := assemble_ok_iff.1 h
  induction n using Nat.strong_induction_on with
  | _ n ih =>
      rintro s hidden q hclass ⟨method, hmethod, hcode⟩ hpc hstack hclear
      rw [← hclass] at ih
      simp only [List.mem_cons, List.mem_append, List.not_mem_nil, or_false] at hmethod
      rcases hmethod with rfl | hmethod | rfl
      · have named : (s.classFile.methods.find? (·.name == constructorName)).isSome = true :=
          List.find?_isSome.2 ⟨entryMethod config code, by simp [hclass],
            by simp [entryMethod, Lowering.method]⟩
        obtain ⟨method, hfound⟩ := Option.isSome_iff_exists.1 named
        have hresolve : s.classFile.resolve constructorName = .ok method := by
          rw [ClassFile.resolve, ClassFile.method?, hfound]
        exact s.returns_entryPoint (by rw [hclass]) hresolve hcode ih hpc hstack hclear
      · obtain ⟨_, _, _, _, _, _, hfunction⟩ := hfunctions.exists_body hmethod
        have stands : s.code.toList = [] ++ method.code.toList := by rw [hcode, List.nil_append]
        exact (hfunction.settles stands ih).returns hpc hstack hclear
      · have stands : s.code.toList = [.load 0, .construct .objectInit] ++ code.toList := by
          simp [hcode, entryMethod, Lowering.method]
        have opening : s.Has 0 [.load 0, .construct .objectInit] :=
          (Site.has_append.1 (Typing.has_of_toList (stands.trans (List.nil_append _).symm))).1
        have settled : s.Settles hidden q n 0 :=
          Site.settles_straight opening rfl rfl (hbody.settles stands ih)
        exact settled.returns hpc hstack hclear

end StackBackend
