import StackBackend.Proofs.Lowering.Depths
import StackBackend.Proofs.Storage.Arrays
import StackBackend.Proofs.Typing.Frames

/-!
# Code without calls

Leaves and operators become code that has no calls in it and fills no array: a straight sequence, or
one that makes a truth value in two branches.  It reads variables and slot zero, and writes the
variables an expression counts up or down, and no other slot.

* `Expr.counted` — the variables that an expression counts up or down;
* `Spared` — the slots an expression leaves alone;
* `Straight` — a straight sequence and the slots it touches, `Straight.passing` what it does;
* `passing_truth` — the two branches of a comparison.
-/

namespace StackBackend

namespace Expr

mutual

/-- The variables that an expression counts up or down. -/
def counted : Expr → List String
  | list _ elements => countedIn elements
  | call _ callee args => callee.counted ++ countedIn args
  | index _ base indices => base.counted ++ countedIn indices
  | binary _ _ lhs rhs => lhs.counted ++ rhs.counted
  | unary _ op operand =>
    (if op = .inc ∨ op = .dec then operand.ident?.toList else []) ++ operand.counted
  | len _ operand | chop _ operand => operand.counted
  | int _ _ | bool _ _ | str _ _ | ident _ _ | fnPtr _ _ => []

/-- The variables that expressions count up or down. -/
def countedIn : List Expr → List String
  | [] => []
  | e :: rest => e.counted ++ countedIn rest

end

end Expr

namespace Lowering

open StackProfile Instruction Site

/-! ## Slots -/

/-- **Slots that an expression leaves alone**: those in use around it, and the variables it does not
count. -/
def Spared (slots : Slots) (depth literals : Nat) (names : List String) : Set Nat :=
  { slot | Typing.Reserved slots depth literals slot ∨
    ∃ name, name ∉ names ∧ slots.get? (.var name) = some slot }

lemma Spared.mono {slots : Slots} {depth depth' literals literals' : Nat}
    {names names' : List String} (hdepth : depth ≤ depth') (hliterals : literals ≤ literals')
    (hnames : names' ⊆ names) :
    Spared slots depth literals names ⊆ Spared slots depth' literals' names' := by
  rintro slot (hslot | ⟨name, hname, hslot⟩)
  · exact .inl (hslot.mono hdepth hliterals)
  · exact .inr ⟨name, fun h => hname (hnames h), hslot⟩

/-- A variable that is counted is not left alone. -/
lemma not_spared_var {slots : Slots} {depth literals slot : Nat} {names : List String}
    {name : String} (hname : name ∈ names) (hslot : slots.get? (.var name) = some slot) :
    slot ∉ Spared slots depth literals names := by
  rintro (hreserved | ⟨other, hother, hslot'⟩)
  · exact Typing.not_reserved_var hslot hreserved
  · obtain rfl : name = other := by simpa using Slots.get?_inj hslot hslot'
    exact hother hname

/-- The receiver's slot is never in use. -/
lemma not_reserved_zero {slots : Slots} {depth literals : Nat} :
    ¬ Typing.Reserved slots depth literals 0 := by
  rintro (⟨number, -, hslot⟩ | ⟨callee, nesting, -, hslot⟩) <;>
  · obtain ⟨place, hplace, -⟩ := Slots.get?_eq_some hslot
    omega

/-! ## Straight sequences -/

/-- **A straight sequence** that reads variables and slot zero, and writes those in `names`. -/
structure Straight (slots : Slots) (names : List String) (d : Nat) (code : List Instruction)
    (e : Nat) : Prop where
  depth : straightDepth? d code = some e
  quiet : code.all isQuiet = true
  loads : ∀ slot, .load slot ∈ code → slot = 0 ∨ ∃ name, slots.get? (.var name) = some slot
  stores : ∀ slot, .store slot ∈ code → ∃ name ∈ names, slots.get? (.var name) = some slot

section Straight

variable {slots : Slots} {names : List String}

lemma straightDepth?_append (d : Nat) (code more : List Instruction) :
    straightDepth? d (code ++ more) = (straightDepth? d code).bind (straightDepth? · more) := by
  induction code generalizing d with
  | nil => rfl
  | cons i rest ih =>
      simp only [List.cons_append, straightDepth?]
      split
      · exact ih _
      · rfl

lemma Straight.append {d m e : Nat} {code more : List Instruction}
    (h : Straight slots names d code m) (h' : Straight slots names m more e) :
    Straight slots names d (code ++ more) e where
  depth := by rw [straightDepth?_append, h.depth, Option.bind_some, h'.depth]
  quiet := by rw [List.all_append, h.quiet, h'.quiet, Bool.and_self]
  loads slot hslot := (List.mem_append.1 hslot).elim (h.loads slot) (h'.loads slot)
  stores slot hslot := (List.mem_append.1 hslot).elim (h.stores slot) (h'.stores slot)

/-- A straight sequence that touches no slot. -/
lemma straight_of_quiet {d e : Nat} {code : List Instruction}
    (hdepth : straightDepth? d code = some e) (hquiet : code.all isQuiet = true)
    (hloads : ∀ slot, .load slot ∉ code) (hstores : ∀ slot, .store slot ∉ code) :
    Straight slots names d code e :=
  ⟨hdepth, hquiet, fun slot h => absurd h (hloads slot), fun slot h => absurd h (hstores slot)⟩

lemma straight_closure (name : String) (d : Nat) :
    Straight slots names d (closureCode name) (d + 1) where
  depth := straight_closureCode name d
  quiet := rfl
  loads := by simp [closureCode, construct]
  stores := by simp [closureCode, construct]

lemma straight_cast (ty : Ty) (d : Nat) : Straight slots names (d + 1) (downcast ty) (d + 1) := by
  cases ty <;> exact straight_of_quiet rfl rfl (by simp [downcast, Ty.boxedClass?])
    (by simp [downcast, Ty.boxedClass?])

lemma straight_unbox (ty : Ty) (d : Nat) : Straight slots names (d + 1) (unboxing ty) (d + 1) := by
  cases ty <;> exact straight_of_quiet rfl rfl (by simp [unboxing, callVirtual])
    (by simp [unboxing, callVirtual])

lemma straight_element (ty : Ty) (d : Nat) :
    Straight slots names (d + 1) (elementCode ty) (d + 1) := by
  rw [elementCode]
  split
  · exact straight_of_quiet rfl rfl (by simp) (by simp)
  · exact straight_cast ty d

lemma straight_index (element : Ty) (d : Nat) : Straight slots names (d + 2)
    (.callVirtual .intValue :: .callVirtual .listGet :: elementCode element) (d + 1) := by
  have taken : Straight slots names (d + 2) [.callVirtual .intValue, .callVirtual .listGet]
      (d + 1) :=
    straight_of_quiet rfl rfl (by simp [callVirtual]) (by simp [callVirtual])
  exact taken.append (straight_element element d)

lemma straight_arith (op : IntOp) (d : Nat) : Straight slots names (d + 2)
    [.callVirtual .intValue, .arith op, .callStatic .integerValueOf] (d + 1) :=
  straight_of_quiet rfl rfl (by simp [callVirtual, callStatic]) (by simp [callVirtual, callStatic])

lemma straight_load {slot : Nat} {name : String} (hslot : slots.get? (.var name) = some slot)
    (d : Nat) : Straight slots names d [.load slot] (d + 1) where
  depth := rfl
  quiet := rfl
  loads := by
    simp only [List.mem_singleton, load.injEq]
    rintro _ rfl
    exact .inr ⟨name, hslot⟩
  stores := by simp

lemma LeafCode.straight {env : Env} {scope : ScopeId} {t u : Supply} {e : Expr}
    {code : List Instruction} (h : LeafCode env scope t e code u) (hwithin : u.slots.Within slots)
    (d : Nat) : Straight slots names d code (d + 1) := by
  cases h with
  | int | bool => exact straight_of_quiet rfl rfl (by simp [callStatic]) (by simp [callStatic])
  | str => exact straight_of_quiet rfl rfl (by simp) (by simp)
  | fn _ | pointer => exact straight_closure _ d
  | @var _ _ ty _ =>
      exact (straight_load (Supply.get?_slotOf hwithin) d).append (straight_cast ty d)

lemma UnaryCode.straight {t u : Supply} {e operand : Expr} {last : List Instruction}
    (h : UnaryCode t e operand last u) (hwithin : u.slots.Within slots) (d : Nat) :
    Straight slots e.counted (d + 1) last (d + 1) := by
  cases h with
  | neg _ | not _ | lenText _ | lenList _ | chop _ =>
      exact straight_of_quiet rfl rfl (by simp [callVirtual, callStatic, chopCode])
        (by simp [callVirtual, callStatic, chopCode])
  | @count _ _ op name _ hop hname _ =>
      refine ⟨rfl, rfl, by simp [callVirtual, callStatic], ?_⟩
      simp only [List.mem_cons, callVirtual, callStatic, reduceCtorEq, store.injEq,
        List.not_mem_nil, or_false, false_or]
      rintro _ rfl
      exact ⟨name, by simp [Expr.counted, hop, hname], Supply.get?_slotOf hwithin⟩

end Straight

/-! ## Passing through -/

section Passing

variable {s : Site} {slots : Slots} {names : List String} {depth literals n pc d lo hi : Nat}
  {hidden kept same : Set Nat} {p₀ p : Point} {base : List Value}

/-- **A straight sequence** leaves the slots in use alone. -/
theorem Straight.passing {code : List Instruction} {e : Nat} (h : Straight slots names d code e)
    (harrives : p₀.Arrives hidden kept same pc base d p) (hhas : s.Has pc code)
    (hkept : ∀ slot ∈ kept, Typing.Reserved slots depth literals slot)
    (hsame : same ⊆ Spared slots depth literals names) (hlo : lo ≤ pc)
    (hhi : pc + code.length ≤ hi) :
    s.Passing lo hi n p (p₀.Arrives hidden kept same (pc + code.length) base e) := by
  refine passing_straight harrives hhas h.depth h.quiet
    (fun slot hload hslot => ?_) (fun slot hstore hslot => ?_) hlo hhi
  · rcases h.loads slot hload with rfl | ⟨name, hname⟩
    · exact not_reserved_zero (hkept 0 hslot)
    · exact Typing.not_reserved_var hname (hkept slot hslot)
  · obtain ⟨name, hname, hvar⟩ := h.stores slot hstore
    exact not_spared_var hname hvar (hsame hslot)

/-- A label stands at one place. -/
lemma label_unique {l : Label} {place q : Nat} (hplace : s.code[place]? = some (.label l))
    (hq : s.code[q]? = some (.label l)) : place = q := by
  have found := (lookup_labelTable s.located).2 hplace
  rw [(lookup_labelTable s.located).2 hq] at found
  exact (Option.some.inj found).symm

/-- Of two labels that stand in the code, a jump goes to its own. -/
lemma goesTo_label {i : Instruction} {l : Label} {place q : Nat} (htarget : i.target? = some l)
    (hq : s.code[q]? = some (.label l)) (h : s.GoesTo i pc place) :
    i.endsBlock = false ∧ place = pc + 1 ∨ place = q := by
  rcases h with hnext | ⟨l', htarget', hplace⟩
  · exact .inl hnext
  · obtain rfl : l = l' := by simpa [htarget] using htarget'
    exact .inr (label_unique hplace hq)

/-- **A branch becomes a truth value** in the place of its operands. -/
theorem passing_truth {branch : Label → Instruction} {m k : Nat}
    (htarget : ∀ l, (branch l).target? = some l) (hquiet : ∀ l, (branch l).isQuiet = true)
    (hpops : ∀ l, (branch l).pops = k) (hpushes : ∀ l, (branch l).pushes = 0)
    (harrives : p₀.Arrives hidden kept same pc base (d + k) p)
    (hhas : s.Has pc (truthCode branch m))
    (hlo : lo ≤ pc) (hhi : pc + 8 ≤ hi) :
    s.Passing lo hi n p (p₀.Arrives hidden kept same (pc + 8) base (d + 1)) := by
  have hslots : ∀ l slot, branch l ≠ .load slot ∧ branch l ≠ .store slot := by
    intro l slot
    constructor <;> intro h <;> simpa [h, Instruction.target?] using htarget l
  simp only [truthCode, has_cons, has_nil, and_true] at hhas
  obtain ⟨hbranch, hzero, hbox, hjump, hlabel, hone, hbox', hend⟩ := hhas
  -- both ways end at the second label, with the truth value on top
  have boxed : ∀ {x : Int32} {q : Point} {place k : Nat}, s.code[place]? = some (.ldc (.int x)) →
      s.code[place + 1]? = some (.callStatic .booleanValueOf) → lo ≤ place → place + 2 ≤ hi →
      p₀.Arrives hidden kept same place base d q →
      s.Passing lo hi k q (p₀.Arrives hidden kept same (place + 2) base (d + 1)) := by
    intro x q place k hldc hcall hlo' hhi' hq
    have stands : s.Has place [.ldc (.int x), .callStatic .booleanValueOf] := by simp [hldc, hcall]
    exact passing_straight hq stands rfl rfl (by simp [callStatic]) (by simp [callStatic]) hlo' hhi'
  have joined : ∀ {q : Point} {k : Nat}, p₀.Arrives hidden kept same (pc + 7) base (d + 1) q →
      s.Passing lo hi k q (p₀.Arrives hidden kept same (pc + 8) base (d + 1)) := by
    intro q k hq
    refine passing_quiet hq hend rfl (.inl (Nat.zero_le _)) (by simp) (by simp) (by omega)
      (by omega) fun q' place _ hq' hgoes _ => ?_
    obtain rfl : place = pc + 8 := hgoes.next rfl
    exact .here hq'
  refine passing_quiet harrives hbranch (hquiet _) (.inl (by rw [hpops]; omega))
    (fun slot h => absurd h (hslots _ slot).1) (fun slot h => absurd h (hslots _ slot).2) hlo
    (by omega) fun q place _ hq hgoes _ => ?_
  have depth_eq : (branch ⟨m⟩).depthAfter (d + k) = d := by
    rw [depthAfter, hpops, hpushes]
    omega
  rw [depth_eq] at hq
  rcases goesTo_label (htarget _) hlabel hgoes with ⟨-, rfl⟩ | rfl
  · refine (boxed hzero hbox (by omega) (by omega) hq).seq (Nat.le_refl _) (Nat.le_refl _)
      fun q' k' _ hq' => ?_
    refine passing_quiet hq' hjump rfl (.inl (Nat.zero_le _)) (by simp) (by simp) (by omega)
      (by omega) fun q'' place _ hq'' hgoes' _ => ?_
    rcases goesTo_label rfl hend hgoes' with ⟨h, -⟩ | rfl
    · simp [endsBlock] at h
    · exact joined hq''
  · refine passing_quiet hq hlabel rfl (.inl (Nat.zero_le _)) (by simp) (by simp) (by omega)
      (by omega) fun q' place _ hq' hgoes' _ => ?_
    obtain rfl : place = pc + 5 := hgoes'.next rfl
    exact (boxed hone hbox' (by omega) (by omega) hq').seq (Nat.le_refl _) (Nat.le_refl _)
      fun q'' k' _ hq'' => joined hq''

/-- What stands between two operands. -/
lemma BinaryCode.straight {t u : Supply} {e lhs rhs : Expr} {middle last : List Instruction}
    (h : BinaryCode t e lhs rhs middle last u) (d : Nat) :
    Straight slots names (d + 1) middle (d + 1) := by
  cases h with
  | arith _ _ _ => exact straight_unbox .int d
  | scalar _ _ => exact straight_unbox _ d
  | text _ _ | identity _ _ | index _ _ => exact straight_of_quiet rfl rfl (by simp) (by simp)

/-- **An operator takes its two operands** and leaves a value. -/
theorem BinaryCode.passing {t u : Supply} {e lhs rhs : Expr} {middle last : List Instruction}
    (h : BinaryCode t e lhs rhs middle last u)
    (harrives : p₀.Arrives hidden kept same pc base (d + 2) p) (hhas : s.Has pc last)
    (hkept : ∀ slot ∈ kept, Typing.Reserved slots depth literals slot)
    (hsame : same ⊆ Spared slots depth literals names) (hlo : lo ≤ pc)
    (hhi : pc + last.length ≤ hi) :
    s.Passing lo hi n p (p₀.Arrives hidden kept same (pc + last.length) base (d + 1)) := by
  cases h with
  | arith _ _ _ => exact (straight_arith _ d).passing harrives hhas hkept hsame hlo hhi
  | scalar _ _ =>
      obtain ⟨hunbox, htruth⟩ := has_append.1 hhas
      rw [List.length_append, ← Nat.add_assoc] at hhi ⊢
      refine ((straight_unbox _ (d + 1)).passing harrives hunbox hkept hsame hlo (by omega)).seq
        (Nat.le_refl _) (Nat.le_refl _) fun q k _ hq => ?_
      exact passing_truth (k := 2) (fun _ => rfl) (fun _ => rfl) (fun _ => rfl)
        (fun _ => rfl) hq htruth (by omega) hhi
  | @text _ op _ _ _ _ _ =>
      have straight : Straight slots names (d + 2) [.callVirtual .stringEquals] (d + 1) :=
        straight_of_quiet rfl rfl (by simp [callVirtual]) (by simp [callVirtual])
      obtain ⟨hequals, htruth⟩ := has_cons.1 hhas
      rw [List.length_cons, ← Nat.add_assoc, Nat.add_right_comm] at hhi ⊢
      refine (straight.passing harrives (by simpa using hequals) hkept hsame hlo
        (by simp only [List.length_singleton]; omega)).seq (Nat.le_refl _) (Nat.le_refl _)
        fun q k _ hq => ?_
      cases op <;> exact passing_truth (k := 1) (fun _ => rfl) (fun _ => rfl) (fun _ => rfl)
        (fun _ => rfl) hq htruth (by omega) hhi
  | identity _ _ =>
      exact passing_truth (k := 2) (fun _ => rfl) (fun _ => rfl) (fun _ => rfl)
        (fun _ => rfl) harrives hhas hlo hhi
  | index _ _ => exact (straight_index _ d).passing harrives hhas hkept hsame hlo hhi

end Passing

end Lowering

end StackBackend
