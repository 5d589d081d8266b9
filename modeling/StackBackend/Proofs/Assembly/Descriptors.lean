import StackBackend.Library
import Mathlib.Tactic.Lemma

/-!
# Descriptors are read as they were written

A call pops as many arguments as its descriptor has parameters, and pushes a result unless the
descriptor says that there is none.  The descriptor is only a text, put together from the words of
the types of a signature, and the reader finds out again where one word ends and the next begins.

* `Parameter` — the reader takes a word for one parameter, whatever comes behind it;
* `parameter_descriptor` — the word of every type is one, so a signature has as many parameters as
  there are words (`countParams_words`);
* `methodDescriptor_read` — what is read from a written signature is its number of arguments, and
  whether it returns something.
-/

namespace StackBackend

namespace Descriptor

/-- **A word is one parameter**, whatever comes behind it, and does not end the parameters. -/
structure Parameter (word : List Char) : Prop where
  one : ∀ rest, countParams false (word ++ rest) = countParams false rest + 1
  inside : ∀ c ∈ word, (c != ')') = true

/-- Inside a class name the reader goes on to the semicolon. -/
lemma countParams_name {name : List Char} (hname : ∀ c ∈ name, c ≠ ';') (rest : List Char) :
    countParams true (name ++ ';' :: rest) = countParams false rest := by
  induction name with
  | nil => rfl
  | cons c name ih =>
      have hc : c ≠ ';' := hname c List.mem_cons_self
      rw [List.cons_append, countParams]
      · exact ih fun c hc => hname c (List.mem_cons_of_mem _ hc)
      · exact fun h => hc h

/-- A class name between `L` and `;` is one parameter. -/
lemma parameter_name {name : List Char} (hname : ∀ c ∈ name, c ≠ ';' ∧ c ≠ ')') :
    Parameter ('L' :: (name ++ [';'])) where
  one rest := by
    have read := countParams_name (fun c hc => (hname c hc).1) rest
    rw [List.cons_append, List.append_assoc, countParams]
    exact congrArg (· + 1) read
  inside c hc := by
    simp only [List.mem_cons, List.mem_append, List.not_mem_nil, or_false] at hc
    rcases hc with rfl | hc | rfl
    · decide
    · exact bne_iff_ne.2 (hname c hc).2
    · decide

/-- **As many parameters are read as words were written.** -/
lemma countParams_words {words : List (List Char)} (hwords : ∀ word ∈ words, Parameter word) :
    countParams false words.flatten = words.length := by
  induction words with
  | nil => rfl
  | cons word words ih =>
      have hword := hwords word List.mem_cons_self
      rw [List.flatten_cons, hword.one, List.length_cons,
        ih fun word hword => hwords word (List.mem_cons_of_mem _ hword)]

/-- The parameters end with the words, at the parenthesis behind them. -/
lemma params_words {words : List (List Char)} (hwords : ∀ word ∈ words, Parameter word)
    (result : List Char) : params ('(' :: (words.flatten ++ ')' :: result)) = words.flatten := by
  have inside : ∀ c ∈ words.flatten, (c != ')') = true := by
    intro c hc
    obtain ⟨word, hword, hc⟩ := List.mem_flatten.1 hc
    exact (hwords word hword).inside c hc
  rw [params, List.takeWhile_append_of_pos inside]
  simp

end Descriptor

open Descriptor

/-- The word of a type with values is the name of a class. -/
lemma exists_descriptor_name {ty : Ty} (hty : ty ≠ .void) : ∃ name : List Char,
    (∀ c ∈ name, c ≠ ';' ∧ c ≠ ')') ∧ ty.descriptor.toList = 'L' :: (name ++ [';']) := by
  cases ty with
  | int => exact ⟨ClassName.integer.toList, by simp [ClassName.integer], rfl⟩
  | bool => exact ⟨ClassName.boolean.toList, by simp [ClassName.boolean], rfl⟩
  | string => exact ⟨ClassName.string.toList, by simp [ClassName.string], rfl⟩
  | list _ => exact ⟨ClassName.list.toList, by simp [ClassName.list], by rw [Ty.descriptor]; rfl⟩
  | fptr _ _ =>
      exact ⟨ClassName.closure.toList, by simp [ClassName.closure], by rw [Ty.descriptor]; rfl⟩
  | void => exact absurd rfl hty

/-- The word of every type is one parameter; so is `V`, which is a letter of its own. -/
lemma parameter_descriptor (ty : Ty) : Parameter ty.descriptor.toList := by
  by_cases hty : ty = .void
  · subst hty
    exact ⟨fun _ => rfl, by simp [Ty.descriptor]⟩
  · obtain ⟨name, hname, heq⟩ := exists_descriptor_name hty
    rw [heq]
    exact parameter_name hname

/-- A written signature: the words of the arguments between parentheses, and the word of the result.
-/
lemma toList_methodDescriptor (args : List Ty) (ret : Ty) :
    (methodDescriptor args ret).toList
      = '(' :: ((args.map (·.descriptor.toList)).flatten ++ ')' :: ret.descriptor.toList) := by
  simp [methodDescriptor, String.toList_join, List.flatMap, Function.comp_def]

lemma arity_methodDescriptor (args : List Ty) (ret : Ty) :
    Descriptor.arity (methodDescriptor args ret) = args.length := by
  have words : ∀ word ∈ args.map (·.descriptor.toList), Parameter word := by
    intro word hword
    obtain ⟨ty, -, rfl⟩ := List.mem_map.1 hword
    exact parameter_descriptor ty
  rw [Descriptor.arity, toList_methodDescriptor, params_words words, countParams_words words,
    List.length_map]

/-- Only `V` is read as no result: the name of a class ends in a semicolon. -/
lemma returnsValue_methodDescriptor (args : List Ty) (ret : Ty) :
    Descriptor.returnsValue (methodDescriptor args ret) = false ↔ ret = .void := by
  rw [Descriptor.returnsValue, toList_methodDescriptor, Bool.not_eq_false',
    List.isSuffixOf_iff_suffix]
  constructor
  · rintro ⟨front, hfront⟩
    by_cases hret : ret = .void
    · exact hret
    · obtain ⟨name, -, heq⟩ := exists_descriptor_name hret
      have last := congrArg (·.reverse.head?) hfront
      simp [heq] at last
  · rintro rfl
    exact ⟨'(' :: (args.map (·.descriptor.toList)).flatten, by simp [Ty.descriptor]⟩

/-- **Descriptors are read as they were written**: a method of a signature takes as many arguments
as the signature has, and returns nothing exactly if the signature says so. -/
theorem methodDescriptor_read (owner name : String) (args : List Ty) (ret : Ty) :
    MethodRef.arity ⟨owner, name, methodDescriptor args ret⟩ = args.length ∧
      (MethodRef.returnsValue ⟨owner, name, methodDescriptor args ret⟩ = false ↔ ret = .void) :=
  ⟨arity_methodDescriptor args ret, returnsValue_methodDescriptor args ret⟩

end StackBackend
