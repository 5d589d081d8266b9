import StackBackend.Proofs.Machine.Site
import StackBackend.Proofs.Storage.Heaps

/-!
# Reading an instruction backwards

A call of the library, or an instruction, that has been carried out has done one of a few things.
This file says which, once, so that no other file has to open the machine's definitions for it.

* `LibraryMethod.Performs h this args m reply h'` — what a call of the library can do, and
  `LibraryMethod.performs_of_perform`: a call that succeeds has done it;
* `Frame.Acts f w i f' w'` — what an instruction that is no call and no return can do;
* `Frame.execute_cases` — an instruction that succeeds is a call, or a return, or acts in its frame.
-/

namespace StackBackend

lemma bind_ok {α β : Type} {x : Except Fault α} {f : α → Except Fault β} {b : β}
    (h : (x >>= f) = .ok b) : ∃ a, x = .ok a ∧ f a = .ok b := by
  cases x with
  | error e => cases h
  | ok a => exact ⟨a, rfl, h⟩

/-! ## The library -/

namespace Heap

lemma rawInt_ok {h : Heap} {v : Value} {x : Int32} (hx : h.rawInt v = .ok x) : v = .raw x := by
  cases v <;> simp_all [rawInt]

lemma dereference_ok {h : Heap} {v : Value} {place : String} {a : Nat} {obj : Obj}
    (hd : h.dereference v place = .ok (a, obj)) : v = .ref a ∧ h.get? a = some obj := by
  cases v with
  | ref address =>
      rw [dereference] at hd
      split at hd
      · next found hfound =>
          obtain ⟨rfl, rfl⟩ : address = a ∧ found = obj := by simpa using hd
          exact ⟨rfl, hfound⟩
      · cases hd
  | _ => cases hd

lemma construct_ok {h h' : Heap} {this : Value} {obj : Obj} (hc : h.construct this obj = .ok h') :
    ∃ a owner, this = .ref a ∧ h.get? a = some (.uninit owner) ∧ h' = h.set a obj := by
  rw [construct] at hc
  split at hc
  · cases hc
  · next a owner hd =>
      obtain ⟨hthis, hold⟩ := dereference_ok hd
      exact ⟨a, owner, hthis, hold, by simpa [eq_comm] using hc⟩
  · cases hc

lemma backing_ok {h : Heap} {this : Value} {b : Nat} {items : Array Value}
    (hb : h.backing this = .ok (b, items)) :
    ∃ l, this = .ref l ∧ h.get? l = some (.list (.ref b)) ∧ h.get? b = some (.array items) := by
  rw [backing] at hb
  split at hb
  · cases hb
  · next l inner hd =>
      obtain ⟨hthis, hlist⟩ := dereference_ok hd
      split at hb
      · cases hb
      · next b' items' hd' =>
          obtain ⟨rfl, hitems⟩ := dereference_ok hd'
          obtain ⟨rfl, rfl⟩ : b' = b ∧ items' = items := by simpa using hb
          exact ⟨l, hthis, hlist, hitems⟩
      · cases hb
  · cases hb

end Heap

namespace LibraryMethod

open Heap

/-- **What a call of the library can do**, on a receiver and with arguments. -/
inductive Performs (h : Heap) (this : Value) (args : List Value) :
    LibraryMethod → Reply → Heap → Prop
  /-- The result, if there is one, is no object. -/
  | plain {m : LibraryMethod} {result : Option Value} : (∀ v ∈ result, ∀ a, v ≠ .ref a) →
      Performs h this args m (.done result) h
  | print {what : Printed} (line : String) : Performs h this args (.println what) (.print line) h
  | text (content : String) :
      Performs h this args .stringSubstring (.done (some (h.newText content).1))
        (h.newText content).2
  | array {a : Nat} {owner : String} : this = .ref a → h.get? a = some (.uninit owner) →
      Performs h this args .arrayInit (.done none) (h.set a (.array #[]))
  | closure {a ident : Nat} {owner name : String} : this = .ref a →
      h.get? a = some (.uninit owner) → args[1]?.getD .null = .text ident name →
      Performs h this args .closureInit (.done none)
        (h.set a (.closure (args[0]?.getD .null) name))
  | list {a b : Nat} {owner : String} {items : Array Value} : this = .ref a →
      h.get? a = some (.uninit owner) → args[0]?.getD .null = .ref b →
      h.get? b = some (.array items) →
      Performs h this args .listInit (.done none) (h.set a (.list (.ref b)))
  | copy {a : Nat} {owner : String} {items : Array Value} : this = .ref a →
      h.get? a = some (.uninit owner) → h.items? (args[0]?.getD .null) = some items →
      Performs h this args .listCopy (.done none) (h.wrapCopy a items)
  | add {a : Nat} {items : Array Value} : this = .ref a → h.get? a = some (.array items) →
      Performs h this args .arrayAdd (.done (some (.raw 1)))
        (h.set a (.array (items.push (args[0]?.getD .null))))
  | get {l b place : Nat} {items : Array Value} : this = .ref l →
      h.get? l = some (.list (.ref b)) → h.get? b = some (.array items) →
      Performs h this args .listGet (.done (some (items[place]?.getD .null))) h
  | assign {l b place : Nat} {index : Int32} {items : Array Value} : this = .ref l →
      h.get? l = some (.list (.ref b)) → h.get? b = some (.array items) →
      args[0]?.getD .null = .raw index → position items index = .ok place →
      Performs h this args .listSet (.done none)
        (h.set b (.array (items.setIfInBounds place (args[1]?.getD .null))))
  | apply {a : Nat} {receiver : Value} {name : String} {items : Array Value} : this = .ref a →
      h.get? a = some (.closure receiver name) → h.items? (args[0]?.getD .null) = some items →
      Performs h this args .closureInvoke (.apply receiver name items.toList) h

variable {h h' : Heap} {this : Value} {args : List Value} {reply : Reply}

/-- **A call of the library that succeeds has done one of these.** -/
theorem performs_of_perform {m : LibraryMethod}
    (hperform : m.perform h this args = .ok (reply, h')) : Performs h this args m reply h' := by
  cases m with
  | objectInit =>
      obtain ⟨rfl, rfl⟩ := by simpa [perform] using hperform
      exact .plain (by simp)
  | integerValueOf | booleanValueOf | stringLength | stringEquals | listSize =>
      obtain ⟨_, -, hdone⟩ := bind_ok hperform
      obtain ⟨rfl, rfl⟩ := by simpa using hdone
      exact .plain (by simp)
  | intValue | booleanValue =>
      simp only [perform] at hperform
      split at hperform
      · obtain ⟨rfl, rfl⟩ := by simpa using hperform
        exact .plain (by simp)
      · cases hperform
  | stringSubstring =>
      obtain ⟨_, -, hrest⟩ := bind_ok hperform
      obtain ⟨_, -, hrest⟩ := bind_ok hrest
      obtain ⟨_, -, hrest⟩ := bind_ok hrest
      split at hrest
      · cases hrest
      · obtain ⟨rfl, rfl⟩ := by simpa using hrest
        exact .text _
  | println what =>
      obtain ⟨line, -, hprint⟩ := bind_ok hperform
      obtain ⟨rfl, rfl⟩ := by simpa using hprint
      exact .print line
  | arrayInit =>
      obtain ⟨_, hc, hdone⟩ := bind_ok hperform
      obtain ⟨a, owner, hthis, hold, rfl⟩ := construct_ok hc
      obtain ⟨rfl, rfl⟩ := by simpa using hdone
      exact .array hthis hold
  | closureInit =>
      simp only [perform] at hperform
      split at hperform
      · next ident name hname =>
          obtain ⟨_, hc, hdone⟩ := bind_ok hperform
          obtain ⟨a, owner, hthis, hold, rfl⟩ := construct_ok hc
          obtain ⟨rfl, rfl⟩ := by simpa using hdone
          exact .closure hthis hold hname
      · cases hperform
  | arrayAdd =>
      simp only [perform] at hperform
      split at hperform
      · cases hperform
      · next a items hd =>
          obtain ⟨hthis, hitems⟩ := dereference_ok hd
          obtain ⟨rfl, rfl⟩ := by simpa using hperform
          exact .add hthis hitems
      · cases hperform
  | listInit =>
      simp only [perform] at hperform
      split at hperform
      · next items harray =>
          obtain ⟨b, hb, hitems⟩ := object?_ok harray
          obtain ⟨_, hc, hdone⟩ := bind_ok hperform
          obtain ⟨a, owner, hthis, hold, rfl⟩ := construct_ok hc
          obtain ⟨rfl, rfl⟩ := by simpa using hdone
          rw [hb]
          exact .list hthis hold hb hitems
      · cases hperform
  | listCopy =>
      obtain ⟨items, hitems, hrest⟩ := bind_ok hperform
      obtain ⟨_, hc, hdone⟩ := bind_ok hrest
      obtain ⟨a, owner, hthis, hold, rfl⟩ := construct_ok hc
      obtain ⟨rfl, rfl⟩ := by simpa using hdone
      -- the copy is an array, so it is not the object to initialize
      have waiting : h.get? a = some (.uninit owner) := by
        change (h.alloc (.array items)).2.get? a = some (.uninit owner) at hold
        rw [get?_alloc] at hold
        split at hold
        · simp at hold
        · exact hold
      exact .copy hthis waiting (listItems_eq_ok.1 hitems)
  | listGet =>
      obtain ⟨_, -, hrest⟩ := bind_ok hperform
      obtain ⟨⟨b, items⟩, hb, hrest⟩ := bind_ok hrest
      obtain ⟨place, -, hdone⟩ := bind_ok hrest
      obtain ⟨l, hthis, hlist, hitems⟩ := backing_ok hb
      obtain ⟨rfl, rfl⟩ := by simpa using hdone
      exact .get hthis hlist hitems
  | listSet =>
      obtain ⟨index, hindex, hrest⟩ := bind_ok hperform
      obtain ⟨⟨b, items⟩, hb, hrest⟩ := bind_ok hrest
      obtain ⟨place, hplace, hdone⟩ := bind_ok hrest
      obtain ⟨l, hthis, hlist, hitems⟩ := backing_ok hb
      obtain ⟨rfl, rfl⟩ := by simpa using hdone
      exact .assign hthis hlist hitems (rawInt_ok hindex) hplace
  | closureInvoke =>
      simp only [perform] at hperform
      split at hperform
      · next receiver name hclosure =>
          obtain ⟨a, hthis, hfound⟩ := object?_ok hclosure
          obtain ⟨items, hitems, hdone⟩ := bind_ok hperform
          obtain ⟨rfl, rfl⟩ := by simpa using hdone
          exact .apply hthis hfound (listItems_eq_ok.1 hitems)
      · cases hperform

end LibraryMethod

/-! ## Calls -/

/-- The locals a method is entered with on a receiver. -/
def Method.entryLocals (method : Method) (receiver : Value) (args : List Value) : Array Value :=
  (if method.isStatic then args else receiver :: args).toArray

namespace Frame

lemma call_ok {method : Method} {receiver : Option Value} {args : List Value} {depth : Nat}
    {use : ResultUse} {callee : Frame}
    (h : Frame.call method receiver args depth use = .ok callee) :
    ∃ labels, labelTable method.code = .ok labels ∧
      callee = { method := method.name, code := method.code, labels
                 locals := method.entryLocals (receiver.getD .null) args, use } := by
  rw [Frame.call] at h
  split at h
  · cases h
  · split at h
    · cases h
    · next labels hlabels =>
        obtain rfl := by simpa using h
        exact ⟨labels, hlabels, rfl⟩

lemma resolve_of_method? {c : ClassFile} {name : String} {method : Method}
    (h : c.method? name = some method) : c.resolve name = .ok method := by
  rw [ClassFile.resolve, h]

lemma resolve_ok {c : ClassFile} {name : String} {method : Method}
    (h : c.resolve name = .ok method) : method ∈ c.methods ∧ method.name = name := by
  rw [ClassFile.resolve] at h
  split at h
  · next found hfound =>
      obtain rfl : found = method := by simpa using h
      exact ⟨List.mem_of_find?_eq_some hfound, by simpa using List.find?_some hfound⟩
  · cases h

end Frame

/-! ## Instructions -/

namespace Frame

/-- **What an instruction that is no call and no return can do** in its frame. -/
inductive Acts (f : Frame) (w : World) : Instruction → Frame → World → Prop
  /-- Operands are taken and results left; those that are objects are among the operands. -/
  | stack {i : Instruction} {rest : List Value} (ops results : List Value) :
      f.stack = ops ++ rest → i.pops = ops.length → results.length = i.pushes →
      i.endsBlock = false → (∀ v ∈ results, v ∈ ops ∨ ∀ a, v ≠ .ref a) →
      Acts f w i { f with stack := results ++ rest } w
  | load (slot : Nat) : Acts f w (.load slot) (f.push (f.loadLocal slot)) w
  | text (content : String) : Acts f w (.ldc (.str content))
      (f.push (w.heap.newText content).1) { w with heap := (w.heap.newText content).2 }
  | make (owner : String) : Acts f w (.new owner) (f.push (w.heap.alloc (.uninit owner)).1)
      { w with heap := (w.heap.alloc (.uninit owner)).2 }
  | store {slot : Nat} {v : Value} {rest : List Value} : f.stack = v :: rest →
      Acts f w (.store slot) (storeLocal { f with stack := rest } slot v) w
  /-- Operands are taken; on at a label, or at the next instruction. -/
  | jump {i : Instruction} {rest : List Value} {target : Label} {f' : Frame} (ops : List Value)
      (cond : Bool) : f.stack = ops ++ rest → i.pops = ops.length → i.pushes = 0 →
      i.target? = some target → (cond = false → i.endsBlock = false) →
      jumpIf { f with stack := rest } cond target = .ok f' → Acts f w i f' w

variable {c : ClassFile} {f : Frame} {w : World} {i : Instruction}

lemma pop_ok {v : Value} {f' : Frame} (hpop : f.pop = .ok (v, f')) :
    ∃ rest, f.stack = v :: rest ∧ f' = { f with stack := rest } := by
  rw [pop] at hpop
  split at hpop
  · next top rest hstack =>
      obtain ⟨rfl, rfl⟩ := by simpa using hpop
      exact ⟨rest, hstack, rfl⟩
  · cases hpop

lemma popInt_ok {h : Heap} {x : Int32} {f' : Frame} (hpop : f.popInt h = .ok (x, f')) :
    ∃ v rest, f.stack = v :: rest ∧ f' = { f with stack := rest } := by
  rw [popInt] at hpop
  split at hpop
  · cases hpop
  · next v f'' hv =>
      obtain ⟨rest, hstack, rfl⟩ := pop_ok hv
      split at hpop
      · cases hpop
      · obtain ⟨-, rfl⟩ := by simpa using hpop
        exact ⟨v, rest, hstack, rfl⟩

lemma stay_ok {x : Except Fault Frame} {control : Control} {w' : World}
    (h : stay w x = (.ok control, w')) : ∃ f', x = .ok f' ∧ control = .next f' ∧ w' = w := by
  cases x with
  | error e => simp [stay, Except.map] at h
  | ok f' =>
      obtain ⟨rfl, rfl⟩ := by simpa [stay, Except.map] using h
      exact ⟨f', rfl, rfl, rfl⟩

/-- A result that is no object is pushed. -/
lemma acts_push {v : Value} (hv : ∀ a, v ≠ .ref a) (hpops : i.pops = 0) (hpushes : i.pushes = 1)
    (hends : i.endsBlock = false) : f.Acts w i (f.push v) w :=
  .stack [] [v] rfl hpops hpushes.symm hends (by simpa using hv)

/-- **An instruction that succeeds is a call, or a return, or acts in its frame.** -/
theorem execute_cases {control : Control} {w' : World}
    (hexec : f.execute c i w = (.ok control, w')) :
    (∃ kind method, i = .invoke kind method ∧ f.invoke c w kind method = (.ok control, w')) ∨
      (∃ rest result, i.isReturn = true ∧ f.stack = Option.toList result ++ rest ∧ w' = w ∧
        control = .leave { f with stack := rest } result) ∨
      ∃ f', control = .next f' ∧ f.Acts w i f' w' := by
  cases i with
  | invoke kind method => exact .inl ⟨kind, method, rfl, hexec⟩
  | ret =>
      obtain ⟨rfl, rfl⟩ := by simpa [execute] using hexec
      exact .inr (.inl ⟨f.stack, none, rfl, rfl, rfl, rfl⟩)
  | retValue =>
      rw [execute] at hexec
      split at hexec
      · simp at hexec
      · next v f' hpop =>
          obtain ⟨rest, hstack, rfl⟩ := pop_ok hpop
          obtain ⟨rfl, rfl⟩ := by simpa using hexec
          exact .inr (.inl ⟨rest, some v, rfl, hstack, rfl, rfl⟩)
  | label l =>
      obtain ⟨rfl, rfl⟩ := by simpa [execute] using hexec
      exact .inr (.inr ⟨_, rfl, .stack [] [] rfl rfl rfl rfl (by simp)⟩)
  | load slot =>
      obtain ⟨rfl, rfl⟩ := by simpa [execute] using hexec
      exact .inr (.inr ⟨_, rfl, .load slot⟩)
  | zero =>
      obtain ⟨rfl, rfl⟩ := by simpa [execute] using hexec
      exact .inr (.inr ⟨_, rfl, acts_push (by simp) rfl rfl rfl⟩)
  | ldc constant =>
      cases constant with
      | int value =>
          obtain ⟨rfl, rfl⟩ := by simpa [execute] using hexec
          exact .inr (.inr ⟨_, rfl, acts_push (by simp) rfl rfl rfl⟩)
      | str content =>
          obtain ⟨rfl, rfl⟩ := by simpa [execute] using hexec
          exact .inr (.inr ⟨_, rfl, .text content⟩)
  | new owner =>
      obtain ⟨rfl, rfl⟩ := by simpa [execute] using hexec
      exact .inr (.inr ⟨_, rfl, .make owner⟩)
  | getStatic field =>
      obtain ⟨f', hf', rfl, rfl⟩ := stay_ok hexec
      obtain ⟨v, hv, hdone⟩ := bind_ok hf'
      obtain rfl := by simpa using hdone
      rw [readStatic] at hv
      split at hv
      · obtain rfl := by simpa using hv
        exact .inr (.inr ⟨_, rfl, acts_push (by simp) rfl rfl rfl⟩)
      · cases hv
  | store slot =>
      obtain ⟨f', hf', rfl, rfl⟩ := stay_ok hexec
      obtain ⟨⟨v, f''⟩, hpop, hdone⟩ := bind_ok hf'
      obtain ⟨rest, hstack, rfl⟩ := pop_ok hpop
      obtain rfl := by simpa using hdone
      exact .inr (.inr ⟨_, rfl, .store hstack⟩)
  | dup =>
      obtain ⟨f', hf', rfl, rfl⟩ := stay_ok hexec
      obtain ⟨⟨v, f''⟩, hpop, hdone⟩ := bind_ok hf'
      obtain ⟨rest, hstack, rfl⟩ := pop_ok hpop
      obtain rfl := by simpa using hdone
      exact .inr (.inr ⟨_, rfl, .stack [v] [v, v] hstack rfl rfl rfl (by simp)⟩)
  | pop =>
      obtain ⟨f', hf', rfl, rfl⟩ := stay_ok hexec
      obtain ⟨⟨v, f''⟩, hpop, hdone⟩ := bind_ok hf'
      obtain ⟨rest, hstack, rfl⟩ := pop_ok hpop
      obtain rfl := by simpa using hdone
      exact .inr (.inr ⟨_, rfl, .stack [v] [] hstack rfl rfl rfl (by simp)⟩)
  | swap =>
      obtain ⟨f', hf', rfl, rfl⟩ := stay_ok hexec
      obtain ⟨⟨a, f₁⟩, hpop, hrest⟩ := bind_ok hf'
      obtain ⟨rest, hstack, rfl⟩ := pop_ok hpop
      obtain ⟨⟨b, f₂⟩, hpop', hdone⟩ := bind_ok hrest
      obtain ⟨rest', rfl, rfl⟩ := pop_ok hpop'
      obtain rfl := by simpa using hdone
      exact .inr (.inr ⟨_, rfl, .stack [a, b] [b, a] hstack rfl rfl rfl (by simp)⟩)
  | cast owner =>
      obtain ⟨f', hf', rfl, rfl⟩ := stay_ok hexec
      obtain ⟨⟨v, f''⟩, hpop, hrest⟩ := bind_ok hf'
      obtain ⟨rest, hstack, rfl⟩ := pop_ok hpop
      obtain ⟨-, -, hdone⟩ := bind_ok hrest
      obtain rfl : f = f' := by simpa using hdone
      have went : f.Acts w' (.cast owner) { f with stack := [v] ++ rest } w' :=
        .stack [v] [v] hstack rfl rfl rfl (by simp)
      rw [List.singleton_append, ← hstack] at went
      exact .inr (.inr ⟨_, rfl, went⟩)
  | neg =>
      obtain ⟨f', hf', rfl, rfl⟩ := stay_ok hexec
      obtain ⟨⟨x, f''⟩, hpop, hdone⟩ := bind_ok hf'
      obtain ⟨v, rest, hstack, rfl⟩ := popInt_ok hpop
      obtain rfl := by simpa using hdone
      exact .inr (.inr ⟨_, rfl, .stack [v] [_] hstack rfl rfl rfl (by simp)⟩)
  | arith op =>
      obtain ⟨f', hf', rfl, rfl⟩ := stay_ok hexec
      obtain ⟨⟨y, f₁⟩, hpop, hrest⟩ := bind_ok hf'
      obtain ⟨a, rest, hstack, rfl⟩ := popInt_ok hpop
      obtain ⟨⟨x, f₂⟩, hpop', hrest⟩ := bind_ok hrest
      obtain ⟨b, rest', rfl, rfl⟩ := popInt_ok hpop'
      obtain ⟨z, -, hdone⟩ := bind_ok hrest
      obtain rfl := by simpa using hdone
      exact .inr (.inr ⟨_, rfl, .stack [a, b] [_] hstack rfl rfl rfl (by simp)⟩)
  | jump target =>
      obtain ⟨f', hf', rfl, rfl⟩ := stay_ok hexec
      exact .inr (.inr ⟨_, rfl, .jump [] true rfl rfl rfl rfl (by simp) hf'⟩)
  | ifZero target | ifNonzero target =>
      obtain ⟨f', hf', rfl, rfl⟩ := stay_ok hexec
      obtain ⟨⟨x, f''⟩, hpop, hjump⟩ := bind_ok hf'
      obtain ⟨v, rest, hstack, rfl⟩ := popInt_ok hpop
      exact .inr (.inr ⟨_, rfl, .jump [v] _ hstack rfl rfl rfl (fun _ => rfl) hjump⟩)
  | ifInt cond target =>
      obtain ⟨f', hf', rfl, rfl⟩ := stay_ok hexec
      obtain ⟨⟨y, f₁⟩, hpop, hrest⟩ := bind_ok hf'
      obtain ⟨a, rest, hstack, rfl⟩ := popInt_ok hpop
      obtain ⟨⟨x, f₂⟩, hpop', hjump⟩ := bind_ok hrest
      obtain ⟨b, rest', rfl, rfl⟩ := popInt_ok hpop'
      exact .inr (.inr ⟨_, rfl, .jump [a, b] _ hstack rfl rfl rfl (fun _ => rfl) hjump⟩)
  | ifRef same target =>
      obtain ⟨f', hf', rfl, rfl⟩ := stay_ok hexec
      obtain ⟨⟨a, f₁⟩, hpop, hrest⟩ := bind_ok hf'
      obtain ⟨rest, hstack, rfl⟩ := pop_ok hpop
      obtain ⟨⟨b, f₂⟩, hpop', hjump⟩ := bind_ok hrest
      obtain ⟨rest', rfl, rfl⟩ := pop_ok hpop'
      exact .inr (.inr ⟨_, rfl, .jump [a, b] _ hstack rfl rfl rfl (fun _ => rfl) hjump⟩)

end Frame

end StackBackend
