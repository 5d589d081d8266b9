import StackBackend.Assembly.Quoted
import Mathlib.Tactic.Lemma

/-!
# Reading quoted text

A reader of quoted text needs two things of it: to find the closing quote, and to undo what was
escaped.

* `untilQuote` — the text up to the first quote that no backslash stands in front of;
* `unescapeAll` — the text that an escaped one was written for; `unquote?` puts both together;
* `untilQuote_escapeAll` — in a text that was quoted, the first such quote is the closing one;
* `unquote?_quote` — every text is recovered from its quoted form;
* `plain_quote` — that form stays on its line, and has no tab or carriage return.
-/

namespace StackBackend.Quoted

/-- The text up to the first quote that is not escaped, as it is written, and what comes behind the
quote. -/
def untilQuote : List Char → Option (List Char × List Char)
  | [] => none
  | '"' :: rest => some ([], rest)
  | '\\' :: c :: rest => (untilQuote rest).map fun found => ('\\' :: c :: found.1, found.2)
  | c :: rest => (untilQuote rest).map fun found => (c :: found.1, found.2)

/-- What a character stands for behind a backslash. -/
def unescape : Char → Char
  | 'n' => '\n'
  | 't' => '\t'
  | 'r' => '\r'
  | c => c

/-- The text that was escaped. -/
def unescapeAll : List Char → List Char
  | '\\' :: c :: rest => unescape c :: unescapeAll rest
  | c :: rest => c :: unescapeAll rest
  | [] => []

/-- The text that was quoted, if nothing stands behind the closing quote. -/
def unquote? (text : String) : Option String :=
  match text.toList with
  | '"' :: rest =>
    match untilQuote rest with
    | some (body, []) => some (String.ofList (unescapeAll body))
    | _ => none
  | _ => none

/-- A character is escaped by a backslash and a letter for it, or stands for itself. -/
lemma escape_cases (c : Char) :
    (∃ letter, escape c = ['\\', letter] ∧ unescape letter = c ∧
        letter ≠ '\n' ∧ letter ≠ '\r' ∧ letter ≠ '\t') ∨
      (escape c = [c] ∧ c ≠ '"' ∧ c ≠ '\\' ∧ c ≠ '\n' ∧ c ≠ '\r' ∧ c ≠ '\t') := by
  fun_cases escape c
  · exact .inl ⟨'"', rfl, rfl, by decide⟩
  · exact .inl ⟨'\\', rfl, rfl, by decide⟩
  · exact .inl ⟨'n', rfl, rfl, by decide⟩
  · exact .inl ⟨'t', rfl, rfl, by decide⟩
  · exact .inl ⟨'r', rfl, rfl, by decide⟩
  · exact .inr ⟨rfl, by grind⟩

/-- **The first quote that is not escaped is the closing one.** -/
lemma untilQuote_escapeAll (text rest : List Char) :
    untilQuote (escapeAll text ++ '"' :: rest) = some (escapeAll text, rest) := by
  induction text with
  | nil => rfl
  | cons c text ih =>
      rw [escapeAll, List.append_assoc]
      rcases escape_cases c with ⟨letter, hc, -⟩ | ⟨hc, hquote, hslash, -⟩
      · simp [hc, untilQuote, ih]
      · rw [hc, List.singleton_append, untilQuote, ih]
        · rfl
        · exact hquote
        · exact fun _ _ h _ => hslash h

lemma unescapeAll_escapeAll (text : List Char) : unescapeAll (escapeAll text) = text := by
  induction text with
  | nil => rfl
  | cons c text ih =>
      rw [escapeAll]
      rcases escape_cases c with ⟨letter, hc, hletter, -⟩ | ⟨hc, -, hslash, -⟩
      · simp [hc, unescapeAll, ih, hletter]
      · rw [hc, List.singleton_append, unescapeAll, ih]
        exact fun _ _ h _ => hslash h

lemma toList_quote (text : String) :
    (quote text).toList = '"' :: (escapeAll text.toList ++ ['"']) := by
  simp [quote]

/-- **Every text is recovered from its quoted form.** -/
lemma unquote?_quote (text : String) : unquote? (quote text) = some text := by
  rw [unquote?, toList_quote]
  simp only [untilQuote_escapeAll, unescapeAll_escapeAll, String.ofList_toList]

lemma plain_escapeAll (text : List Char) :
    ∀ c ∈ escapeAll text, c ≠ '\n' ∧ c ≠ '\r' ∧ c ≠ '\t' := by
  induction text with
  | nil => simp [escapeAll]
  | cons c text ih =>
      intro d hd
      rw [escapeAll, List.mem_append] at hd
      rcases hd with hd | hd
      · rcases escape_cases c with ⟨letter, hc, -, hplain⟩ | ⟨hc, -, -, hplain⟩
        · rw [hc, List.mem_cons, List.mem_singleton] at hd
          rcases hd with rfl | rfl
          · decide
          · exact hplain
        · rw [hc, List.mem_singleton] at hd
          exact hd ▸ hplain
      · exact ih d hd

/-- **Quoted text has no raw newline, carriage return or tab.** -/
lemma plain_quote (text : String) :
    ∀ c ∈ (quote text).toList, c ≠ '\n' ∧ c ≠ '\r' ∧ c ≠ '\t' := by
  intro c hc
  rw [toList_quote, List.mem_cons, List.mem_append, List.mem_singleton] at hc
  rcases hc with rfl | hc | rfl
  · decide
  · exact plain_escapeAll text.toList c hc
  · decide

end StackBackend.Quoted
