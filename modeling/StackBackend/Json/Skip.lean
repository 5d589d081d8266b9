import StackBackend.Json.Lexeme

/-!
# Stepping over JSON text

A document may hold values that nobody looks at.  `Json.skip?` steps over one value and checks only
its form: it may nest as deep as it likes, and its texts may hold half a surrogate pair.

The arrays and objects that are open stand in a list, the innermost first, so the depth of a value
costs no more than its length.  Every step takes a character, so the number of characters bounds
the number of steps.
-/

namespace StackBackend.Json

/-- An array or object that is open. -/
inductive Frame where
  | array
  | object
deriving DecidableEq, Inhabited

/-- What the text has to go on with. -/
inductive Expected where
  | value
  /-- A value, or the end of the array that was just opened. -/
  | firstItem
  /-- A member of an object, from its name on. -/
  | member
  /-- A member, or the end of the object that was just opened. -/
  | firstMember
  /-- What follows a value: a comma or the end of what is open. -/
  | separator
deriving DecidableEq, Inhabited

/-- Step over a value that is neither an array nor an object. -/
def skipScalar? : List Char → Option (List Char)
  | 'n' :: 'u' :: 'l' :: 'l' :: rest => some rest
  | 't' :: 'r' :: 'u' :: 'e' :: rest => some rest
  | 'f' :: 'a' :: 'l' :: 's' :: 'e' :: rest => some rest
  | '"' :: rest => skipString? rest
  | rest => (readNumber? rest).map (·.2)

/-- Step over the name of a member and the colon behind it. -/
def skipName? : List Char → Option (List Char)
  | '"' :: rest =>
    match (skipString? rest).map skipBlanks with
    | some (':' :: rest) => some rest
    | _ => none
  | _ => none

/-- Step over text, within a number of steps, until nothing is open and nothing expected. -/
def skipFrom? : (steps : Nat) → (opened : List Frame) → Expected → List Char → Option (List Char)
  | 0, _, _, _ => none
  | _ + 1, [], .separator, cs => some cs
  | steps + 1, opened, expected, cs =>
    match expected, opened, skipBlanks cs with
    | .separator, .array :: _, ',' :: cs => skipFrom? steps opened .value cs
    | .separator, .array :: outer, ']' :: cs => skipFrom? steps outer .separator cs
    | .separator, .object :: _, ',' :: cs => skipFrom? steps opened .member cs
    | .separator, .object :: outer, '\x7d' :: cs => skipFrom? steps outer .separator cs
    | .separator, _, _ => none
    | .firstItem, _ :: outer, ']' :: cs => skipFrom? steps outer .separator cs
    | .firstMember, _ :: outer, '\x7d' :: cs => skipFrom? steps outer .separator cs
    | .member, _, cs | .firstMember, _, cs =>
      match skipName? cs with
      | some cs => skipFrom? steps opened .value cs
      | none => none
    | .value, _, '[' :: cs | .firstItem, _, '[' :: cs =>
      skipFrom? steps (.array :: opened) .firstItem cs
    | .value, _, '\x7b' :: cs | .firstItem, _, '\x7b' :: cs =>
      skipFrom? steps (.object :: opened) .firstMember cs
    | .value, _, cs | .firstItem, _, cs =>
      match skipScalar? cs with
      | some cs => skipFrom? steps opened .separator cs
      | none => none

/-- **Step over one value.** -/
def skip? (cs : List Char) : Option (List Char) := skipFrom? (cs.length + 1) [] .value cs

end StackBackend.Json
