import StackBackend.Assembly.Text
import StackBackend.Library
import StackBackend.Proofs.Assembly.Unquoting
import Mathlib.Data.List.TakeWhile

/-!
# Reading assembly text

The written form of code can be read back.  `Instruction.ofLine?` is a reader of lines: it splits a
line into tabs, mnemonic and operand, and each kind of operand has a reader of its own.

* `Instruction.Writable` — the operands that emitted code has: methods and fields of the library,
  and names of classes that stay on their line;
* `ofLine?_line` — the line of such an instruction is read as that instruction;
* `newline_not_mem_line` — it is one line, so the text of code has one line for each instruction
  (`splitOn_render`);
* `text_determines_code` — code is determined by its text.
-/

namespace StackBackend

/-! ## Operands -/

/-- The number that digits spell. -/
def natOfText? (digits : List Char) : Option Nat :=
  if !digits.isEmpty && digits.all Char.isDigit then some (Nat.ofDigitChars 10 digits 0) else none

/-- The integer that digits behind an optional sign spell. -/
def intOfText? : List Char → Option Int
  | '-' :: digits => (natOfText? digits).map fun n => -(n : Int)
  | digits => (natOfText? digits).map fun n => (n : Int)

/-- The label spelled `Label_n`. -/
def Label.ofText? : List Char → Option Label
  | 'L' :: 'a' :: 'b' :: 'e' :: 'l' :: '_' :: digits => (natOfText? digits).map Label.mk
  | _ => none

/-- The constant spelled so: quoted text, or an integer. -/
def Constant.ofText? : List Char → Option Constant
  | '"' :: rest => (Quoted.unquote? (String.ofList ('"' :: rest))).map str
  | text => (intOfText? text).map fun value => int (Int32.ofInt value)

/-- All methods of the library. -/
def LibraryMethod.all : List LibraryMethod :=
  unprinting ++ [println .int, println .bool, println .text, println .object]

/-- The method of the library that is spelled so. -/
def MethodRef.ofText? (text : List Char) : Option MethodRef :=
  (LibraryMethod.all.find? (·.ref.text = String.ofList text)).map LibraryMethod.ref

/-- The field of the library that is spelled so. -/
def FieldRef.ofText? (text : List Char) : Option FieldRef :=
  if String.ofList text = consoleField.text then some consoleField else none

lemma isDigit_of_mem_toString {n : Nat} {c : Char} (hc : c ∈ (toString n).toList) :
    c.isDigit = true := by
  rw [Nat.toString_eq_repr, Nat.toList_repr] at hc
  exact Nat.isDigit_of_mem_toDigits (by decide) (by decide) hc

lemma natOfText?_toString (n : Nat) : natOfText? (toString n).toList = some n := by
  have digits : (toString n).toList.all Char.isDigit = true :=
    List.all_eq_true.2 fun _ => isDigit_of_mem_toString
  have spelled : (!(toString n).toList.isEmpty && (toString n).toList.all Char.isDigit) = true := by
    rw [digits, Bool.and_true]
    simp
  rw [natOfText?, if_pos spelled, Nat.toString_eq_repr, Nat.toList_repr,
    Nat.ofDigitChars_ten_toDigits]

/-- An integer is spelled by digits, behind a sign if it is negative. -/
lemma toList_toString_int (value : Int) :
    (toString value).toList = (toString value.toNat).toList ∧ value = value.toNat ∨
      (toString value).toList = '-' :: (toString (-value).toNat).toList ∧
        value = -((-value).toNat : Int) := by
  rw [Int.toString_eq_repr, Int.repr_eq_if, Nat.toString_eq_repr, Nat.toString_eq_repr]
  split
  · exact .inl ⟨rfl, by omega⟩
  · exact .inr ⟨by simp, by omega⟩

lemma of_mem_toString_int {value : Int} {c : Char} (hc : c ∈ (toString value).toList) :
    c = '-' ∨ c.isDigit = true := by
  rcases toList_toString_int value with ⟨heq, -⟩ | ⟨heq, -⟩
  · rw [heq] at hc
    exact .inr (isDigit_of_mem_toString hc)
  · rw [heq, List.mem_cons] at hc
    exact hc.imp id isDigit_of_mem_toString

lemma intOfText?_toString (value : Int) : intOfText? (toString value).toList = some value := by
  rcases toList_toString_int value with ⟨heq, hvalue⟩ | ⟨heq, hvalue⟩
  · rw [heq, intOfText?, natOfText?_toString]
    · exact congrArg some hvalue.symm
    · intro digits h
      have sign : '-' ∈ (toString value.toNat).toList := h ▸ List.mem_cons_self
      exact absurd (isDigit_of_mem_toString sign) (by decide)
  · rw [heq, intOfText?, natOfText?_toString]
    exact congrArg some hvalue.symm

lemma Label.toList_text (l : Label) :
    l.text.toList = 'L' :: 'a' :: 'b' :: 'e' :: 'l' :: '_' :: (toString l.id).toList := by
  simp [Label.text]

lemma Label.ofText?_text (l : Label) : ofText? l.text.toList = some l := by
  rw [toList_text, ofText?, natOfText?_toString]
  rfl

lemma Constant.ofText?_text (k : Constant) : ofText? k.text.toList = some k := by
  cases k with
  | str value =>
      have quoted : String.ofList ('"' :: (Quoted.escapeAll value.toList ++ ['"'])) =
          Quoted.quote value := by
        rw [← Quoted.toList_quote, String.ofList_toList]
      rw [text, Quoted.toList_quote, ofText?, quoted, Quoted.unquote?_quote]
      rfl
  | int value =>
      rw [text, ofText?, intOfText?_toString]
      · simp
      · intro rest h
        have quoted : '"' ∈ (toString value.toInt).toList := h ▸ List.mem_cons_self
        exact absurd (of_mem_toString_int quoted) (by decide)

lemma MethodRef.ofText?_text (m : LibraryMethod) : ofText? m.ref.text.toList = some m.ref := by
  rw [ofText?, String.ofList_toList]
  cases m with
  | println what => cases what <;> rfl
  | _ => rfl

/-! ## Instructions -/

namespace Instruction

/-- The instruction that is spelled by its mnemonic alone. -/
def ofMnemonic? : String → Option Instruction
  | "aload_0" => some (load 0)
  | "iconst_0" => some zero
  | "dup" => some dup
  | "pop" => some pop
  | "swap" => some swap
  | "iadd" => some (arith .add)
  | "isub" => some (arith .sub)
  | "imul" => some (arith .mul)
  | "idiv" => some (arith .div)
  | "irem" => some (arith .rem)
  | "ixor" => some (arith .xor)
  | "ineg" => some neg
  | "return" => some ret
  | "areturn" => some retValue
  | _ => none

/-- The instruction that is spelled by a mnemonic and an operand. -/
def ofOperand? (operand : List Char) : String → Option Instruction
  | "aload" => (natOfText? operand).map load
  | "astore" => (natOfText? operand).map store
  | "ldc" => (Constant.ofText? operand).map ldc
  | "new" => some (new (String.ofList operand))
  | "checkcast" => some (cast (String.ofList operand))
  | "getstatic" => (FieldRef.ofText? operand).map getStatic
  | "invokevirtual" => (MethodRef.ofText? operand).map (invoke .virtual)
  | "invokespecial" => (MethodRef.ofText? operand).map (invoke .special)
  | "invokestatic" => (MethodRef.ofText? operand).map (invoke .static)
  | "goto" => (Label.ofText? operand).map jump
  | "ifeq" => (Label.ofText? operand).map ifZero
  | "ifne" => (Label.ofText? operand).map ifNonzero
  | "if_icmpeq" => (Label.ofText? operand).map (ifInt .eq)
  | "if_icmpne" => (Label.ofText? operand).map (ifInt .ne)
  | "if_icmpgt" => (Label.ofText? operand).map (ifInt .gt)
  | "if_icmpge" => (Label.ofText? operand).map (ifInt .ge)
  | "if_icmplt" => (Label.ofText? operand).map (ifInt .lt)
  | "if_icmple" => (Label.ofText? operand).map (ifInt .le)
  | "if_acmpeq" => (Label.ofText? operand).map (ifRef true)
  | "if_acmpne" => (Label.ofText? operand).map (ifRef false)
  | _ => none

/-- The instruction that is spelled so: a mnemonic goes up to the first blank. -/
def ofText? (text : List Char) : Option Instruction :=
  match text.dropWhile (· != ' ') with
  | [] => ofMnemonic? (String.ofList text)
  | _ :: operand => ofOperand? operand (String.ofList (text.takeWhile (· != ' ')))

/-- The instruction on a line: a label definition stands behind one tab, all else behind two. -/
def ofLine? : List Char → Option Instruction
  | '\t' :: '\t' :: text => ofText? text
  | '\t' :: text =>
      if text.getLast? = some ':' then (Label.ofText? text.dropLast).map label else none
  | _ => none

/-- **The operands that can be told by their spelling**: methods and fields of the library, and
names of classes that stay on their line. -/
def Writable : Instruction → Prop
  | new owner | cast owner => '\n' ∉ owner.toList
  | getStatic field => field = consoleField
  | invoke _ method => ∃ m : LibraryMethod, method = m.ref
  | _ => True

/-! ### Words -/

/-- A mnemonic is one word. -/
lemma word_mnemonic (i : Instruction) :
    ∀ c ∈ (i.mnemonic?.getD "").toList, (c != ' ') = true ∧ c ≠ '\n' ∧ c ≠ '\t' := by
  cases i with
  | arith op => cases op <;> simp [mnemonic?, IntOp.mnemonic]
  | invoke kind _ => cases kind <;> simp [mnemonic?, InvokeKind.mnemonic]
  | ifInt cond _ => cases cond <;> simp [mnemonic?, Cond.suffix]
  | ifRef same _ => cases same <;> simp [mnemonic?]
  | _ => simp [mnemonic?]

/-- A label definition apart, there is a mnemonic. -/
lemma exists_cons_mnemonic {i : Instruction} (hi : i.isLabel = false) :
    ∃ c rest, (i.mnemonic?.getD "").toList = c :: rest := by
  refine List.exists_cons_of_ne_nil ?_
  cases i with
  | label _ => cases hi
  | arith op => cases op <;> simp [mnemonic?, IntOp.mnemonic]
  | invoke kind _ => cases kind <;> simp [mnemonic?, InvokeKind.mnemonic]
  | ifRef same _ => cases same <;> simp [mnemonic?]
  | _ => simp [mnemonic?]

variable {i : Instruction}

/-- The ways an instruction is spelled: a label definition, the loading of slot zero, a mnemonic, or
a mnemonic and an operand. -/
lemma text_cases (i : Instruction) :
    (∃ l, i = label l) ∨ i = load 0 ∨
      (i.isLabel = false ∧ i.operand? = none ∧ i.text.toList = (i.mnemonic?.getD "").toList) ∨
      ∃ operand, i.isLabel = false ∧ i.operand? = some operand ∧
        i.text.toList = (i.mnemonic?.getD "").toList ++ ' ' :: operand.toList := by
  by_cases hload : i = load 0
  · exact .inr (.inl hload)
  cases hlabel : i.isLabel with
  | true =>
      cases i with
      | label l => exact .inl ⟨l, rfl⟩
      | _ => cases hlabel
  | false =>
      have hnot : ∀ l, i = label l → False := by
        rintro l rfl
        cases hlabel
      cases ho : i.operand? with
      | none => exact .inr (.inr (.inl ⟨rfl, rfl, by rw [text, ho] <;> assumption⟩))
      | some operand =>
          have spelled : i.text = i.mnemonic?.getD "" ++ " " ++ operand := by
            rw [text, ho] <;> assumption
          exact .inr (.inr (.inr ⟨operand, rfl, rfl, by simp [spelled]⟩))

lemma ofText?_word (h : i.text.toList = (i.mnemonic?.getD "").toList) :
    ofText? i.text.toList = ofMnemonic? (i.mnemonic?.getD "") := by
  have whole := List.dropWhile_eq_nil_iff.2 fun c hc => (i.word_mnemonic c hc).1
  rw [h, ofText?, whole, String.ofList_toList]

lemma ofText?_words {operand : String}
    (h : i.text.toList = (i.mnemonic?.getD "").toList ++ ' ' :: operand.toList) :
    ofText? i.text.toList = ofOperand? operand.toList (i.mnemonic?.getD "") := by
  have word : ∀ c ∈ (i.mnemonic?.getD "").toList, (c != ' ') = true :=
    fun c hc => (i.word_mnemonic c hc).1
  have rest : i.text.toList.dropWhile (· != ' ') = ' ' :: operand.toList := by
    rw [h, List.dropWhile_append_of_pos word]
    simp
  have first : i.text.toList.takeWhile (· != ' ') = (i.mnemonic?.getD "").toList := by
    rw [h, List.takeWhile_append_of_pos word]
    simp
  simp only [ofText?, rest, first, String.ofList_toList]

/-- No two mnemonics without an operand are the same. -/
lemma ofMnemonic?_mnemonic (ho : i.operand? = none) (hi : i.isLabel = false) :
    ofMnemonic? (i.mnemonic?.getD "") = some i := by
  cases i with
  | arith op => cases op <;> rfl
  | zero | dup | pop | swap | neg | ret | retValue => rfl
  | label _ => cases hi
  | _ => cases ho

/-- No two mnemonics with an operand are the same, and the mnemonic says how the operand is read. -/
lemma ofOperand?_operand {operand : String} (ho : i.operand? = some operand) (hi : i.Writable) :
    ofOperand? operand.toList (i.mnemonic?.getD "") = some i := by
  cases i with
  | load slot | store slot =>
      cases ho
      exact congrArg (Option.map _) (natOfText?_toString slot)
  | ldc constant =>
      cases ho
      exact congrArg (Option.map _) (Constant.ofText?_text constant)
  | new owner =>
      cases ho
      exact congrArg (fun owner => some (new owner)) String.ofList_toList
  | cast owner =>
      cases ho
      exact congrArg (fun owner => some (cast owner)) String.ofList_toList
  | getStatic field =>
      cases ho
      cases hi
      rfl
  | invoke kind method =>
      cases ho
      obtain ⟨m, rfl⟩ := hi
      have read : (MethodRef.ofText? m.ref.text.toList).map (invoke kind) =
          some (invoke kind m.ref) := by
        rw [MethodRef.ofText?_text, Option.map_some]
      cases kind <;> exact read
  | jump target | ifZero target | ifNonzero target =>
      cases ho
      exact congrArg (Option.map _) (Label.ofText?_text target)
  | ifInt cond target =>
      cases ho
      cases cond <;> exact congrArg (Option.map _) (Label.ofText?_text target)
  | ifRef same target =>
      cases ho
      cases same <;> exact congrArg (Option.map _) (Label.ofText?_text target)
  | _ => cases ho

/-- **Every instruction is read as it was written.** -/
lemma ofText?_text (hlabel : i.isLabel = false) (hi : i.Writable) :
    ofText? i.text.toList = some i := by
  rcases i.text_cases with ⟨l, rfl⟩ | rfl | ⟨-, ho, htext⟩ | ⟨operand, -, ho, htext⟩
  · cases hlabel
  · rfl
  · rw [ofText?_word htext, ofMnemonic?_mnemonic ho hlabel]
  · rw [ofText?_words htext, ofOperand?_operand ho hi]

/-! ### Lines -/

lemma toList_line (i : Instruction) :
    i.line.toList = (if i.isLabel then ['\t'] else ['\t', '\t']) ++ i.text.toList := by
  rw [line]
  split <;> simp

lemma toList_text_label (l : Label) : (label l).text.toList = l.text.toList ++ [':'] := by
  simp [text]

/-- What stands behind the tabs does not begin with one. -/
lemma exists_cons_text (i : Instruction) : ∃ c rest, i.text.toList = c :: rest ∧ c ≠ '\t' := by
  rcases i.text_cases with ⟨l, rfl⟩ | rfl | ⟨hlabel, -, htext⟩ | ⟨operand, hlabel, -, htext⟩
  · exact ⟨'L', _, by rw [toList_text_label, Label.toList_text]; rfl, by decide⟩
  · exact ⟨'a', _, rfl, by decide⟩
  · obtain ⟨c, rest, hm⟩ := exists_cons_mnemonic hlabel
    exact ⟨c, rest, htext.trans hm, (i.word_mnemonic c (hm ▸ List.mem_cons_self)).2.2⟩
  · obtain ⟨c, rest, hm⟩ := exists_cons_mnemonic hlabel
    exact ⟨c, _, by rw [htext, hm]; rfl, (i.word_mnemonic c (hm ▸ List.mem_cons_self)).2.2⟩

/-- **A label definition stands behind one tab, and all else behind two.** -/
lemma tabs_line (i : Instruction) :
    (i.line.toList.takeWhile (· == '\t')).length = if i.isLabel then 1 else 2 := by
  obtain ⟨c, rest, htext, hc⟩ := i.exists_cons_text
  rw [toList_line, htext]
  split <;> simp [hc]

/-- **The line of an instruction is read as that instruction.** -/
lemma ofLine?_line (hi : i.Writable) : ofLine? i.line.toList = some i := by
  rw [toList_line]
  cases hlabel : i.isLabel with
  | false => exact ofText?_text hlabel hi
  | true =>
      cases i with
      | label l =>
          rw [toList_text_label, if_pos rfl, List.singleton_append, ofLine?]
          · simp [Label.ofText?_text]
          · simp [Label.toList_text]
      | _ => cases hlabel

lemma newline_not_mem_toString (n : Nat) : '\n' ∉ (toString n).toList :=
  fun hmem => absurd (isDigit_of_mem_toString hmem) (by decide)

lemma newline_not_mem_label (l : Label) : '\n' ∉ l.text.toList := by
  have digits := newline_not_mem_toString l.id
  rw [Label.toList_text]
  simpa using digits

lemma newline_not_mem_method (m : LibraryMethod) : '\n' ∉ m.ref.text.toList := by
  have parts : '\n' ∉ m.ref.owner.toList ∧ '\n' ∉ m.ref.name.toList ∧
      '\n' ∉ m.ref.descriptor.toList := by
    cases m with
    | println what => cases what <;> decide
    | _ => decide
  simp [MethodRef.text, parts]

lemma newline_not_mem_operand {operand : String} (ho : i.operand? = some operand)
    (hi : i.Writable) : '\n' ∉ operand.toList := by
  cases i with
  | load slot | store slot =>
      cases ho
      exact newline_not_mem_toString slot
  | ldc constant =>
      cases ho
      cases constant with
      | int value => exact fun hmem => absurd (of_mem_toString_int hmem) (by decide)
      | str text => exact fun hmem => (Quoted.plain_quote text _ hmem).1 rfl
  | new owner | cast owner =>
      cases ho
      exact hi
  | getStatic field =>
      cases ho
      cases hi
      decide
  | invoke kind method =>
      cases ho
      obtain ⟨m, rfl⟩ := hi
      exact newline_not_mem_method m
  | jump l | ifZero l | ifNonzero l | ifInt _ l | ifRef _ l =>
      cases ho
      exact newline_not_mem_label l
  | _ => cases ho

/-- **An instruction is written on one line.** -/
lemma newline_not_mem_line (hi : i.Writable) : '\n' ∉ i.line.toList := by
  have word : '\n' ∉ (i.mnemonic?.getD "").toList := fun hmem => (i.word_mnemonic _ hmem).2.1 rfl
  have htext : '\n' ∉ i.text.toList := by
    rcases i.text_cases with ⟨l, rfl⟩ | rfl | ⟨-, -, htext⟩ | ⟨operand, -, ho, htext⟩
    · simp [toList_text_label, newline_not_mem_label]
    · decide
    · exact htext ▸ word
    · simp [htext, word, newline_not_mem_operand ho hi]
  rw [toList_line]
  split <;> simp [htext]

end Instruction

/-! ## Code -/

namespace Assembly

lemma toList_render (lines : List String) :
    (render lines).toList = lines.flatMap fun line => line.toList ++ ['\n'] := by
  have appended : ∀ text : String,
      (lines.foldl (fun text line => text ++ line ++ "\n") text).toList
        = text.toList ++ lines.flatMap fun line => line.toList ++ ['\n'] := by
    induction lines with
    | nil => simp
    | cons line lines ih =>
        intro text
        rw [List.foldl_cons, ih]
        simp
  simpa [render] using appended ""

/-- **Lines that are written are the lines of the text**, each of them ended by a newline. -/
lemma splitOn_render {lines : List String} (hlines : ∀ line ∈ lines, '\n' ∉ line.toList) :
    (render lines).toList.splitOn '\n' = lines.map String.toList ++ [[]] := by
  rw [toList_render]
  induction lines with
  | nil => rfl
  | cons line lines ih =>
      have hline := hlines line List.mem_cons_self
      rw [List.flatMap_cons, List.append_assoc, List.singleton_append,
        List.splitOn_append_cons_self_of_not_mem hline,
        ih fun line hline => hlines line (List.mem_cons_of_mem _ hline)]
      rfl

/-- The lines of the text of code. -/
lemma splitOn_code {code : List Instruction} (hcode : ∀ i ∈ code, i.Writable) :
    (render (code.map Instruction.line)).toList.splitOn '\n'
      = code.map (fun i => i.line.toList) ++ [[]] := by
  rw [splitOn_render, List.map_map]
  · rfl
  · intro line hline
    obtain ⟨i, hi, rfl⟩ := List.mem_map.1 hline
    exact Instruction.newline_not_mem_line (hcode i hi)

/-- **Code is read back from its text.** -/
lemma read_render {code : List Instruction} (hcode : ∀ i ∈ code, i.Writable) :
    ((render (code.map Instruction.line)).toList.splitOn '\n').filterMap Instruction.ofLine? =
    code := by
  rw [splitOn_code hcode, List.filterMap_append]
  have read : (code.map fun i => i.line.toList).filterMap Instruction.ofLine? = code := by
    induction code with
    | nil => rfl
    | cons i code ih =>
        have hi := Instruction.ofLine?_line (hcode i List.mem_cons_self)
        rw [List.map_cons, List.filterMap_cons_some hi,
          ih fun i hi => hcode i (List.mem_cons_of_mem _ hi)]
  rw [read]
  exact List.append_nil code

/-- **The text determines the code.**  Of code with operands that can be told by their spelling the
text has one line for each instruction, behind one tab if that is a label definition and behind two
if not, and no other such code has the same text.  In particular a text is recovered from its quoted
form, which has no raw newline, carriage return or tab and no quote but the closing one that is not
escaped. -/
theorem text_determines_code (code : List Instruction) (hcode : ∀ i ∈ code, i.Writable) :
    (render (code.map Instruction.line)).toList.splitOn '\n'
        = code.map (fun i => i.line.toList) ++ [[]] ∧
      (∀ i ∈ code, (i.line.toList.takeWhile (· == '\t')).length = if i.isLabel then 1 else 2) ∧
      (∀ other : List Instruction, (∀ i ∈ other, i.Writable) →
        render (other.map Instruction.line) = render (code.map Instruction.line) → other = code) ∧
      ∀ text : String, Quoted.unquote? (Quoted.quote text) = some text ∧
        (∀ c ∈ (Quoted.quote text).toList, c ≠ '\n' ∧ c ≠ '\r' ∧ c ≠ '\t') ∧
        ∃ body, (Quoted.quote text).toList = '"' :: (body ++ ['"']) ∧
          Quoted.untilQuote (body ++ ['"']) = some (body, []) := by
  refine ⟨splitOn_code hcode, fun i _ => i.tabs_line, ?_, ?_⟩
  · intro other hother same
    rw [← read_render hother, same, read_render hcode]
  · intro text
    exact ⟨Quoted.unquote?_quote text, Quoted.plain_quote text, _, Quoted.toList_quote text,
      Quoted.untilQuote_escapeAll _ []⟩

/-- Code that prints a text with a quote and a newline, over and over. -/
def greeting : List Instruction :=
  [.label ⟨0⟩, .getStatic consoleField, .ldc (.str "say \"hi\"\n"), .callVirtual (.println .text),
    .load 0, .load 10, .ldc (.int (-1)), .jump ⟨0⟩]

theorem text_determines_greeting :
    (∀ i ∈ greeting, i.Writable) ∧
      render (greeting.map Instruction.line) =
        "\tLabel_0:\n\t\tgetstatic java/lang/System/out Ljava/io/PrintStream;\n" ++
        "\t\tldc \"say \\\"hi\\\"\\n\"\n" ++
        "\t\tinvokevirtual java/io/PrintStream/println(Ljava/lang/String;)V\n" ++
        "\t\taload_0\n\t\taload 10\n\t\tldc -1\n\t\tgoto Label_0\n" ∧
      ∀ other : List Instruction, (∀ i ∈ other, i.Writable) →
        render (other.map Instruction.line) = render (greeting.map Instruction.line) →
          other = greeting := by
  have writable : ∀ i ∈ greeting, i.Writable := by
    simp [greeting, Instruction.Writable, Instruction.callVirtual]
  exact ⟨writable, by decide +kernel, (text_determines_code greeting writable).2.2.1⟩

end Assembly

end StackBackend
