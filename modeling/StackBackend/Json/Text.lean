import StackBackend.Json.Skip

/-!
# JSON text

Reading and writing values as text.

- `Json.parse?` reads a document: one value, blanks around it, nothing else;
- `Json.render` writes a value without blanks.

A document is read if it is well formed.  What is well formed and stands for no value is kept as it
is written: a text with half a surrogate pair, an object with such a name, and an array or object
that nests too deep.  So a reader of documents can pass over it where it looks at nothing, and
refuses it elsewhere.

The reader works on a list of characters and consumes at least one with every step, so the number
of characters bounds the number of steps.
-/

namespace StackBackend.Json

/-! ## Reading -/

/-- Keep a value as it is written. -/
def keep? (cs : List Char) : Option (Json × List Char) :=
  (skip? cs).map fun rest => (raw (String.ofList (cs.take (cs.length - rest.length))), rest)

/-- What was found, or the value as it is written. -/
def orKeep (cs : List Char) : Option (Json × List Char) → Option (Json × List Char)
  | some found => some found
  | none => keep? cs

mutual

/-- Read a value within a number of steps.  Arrays and objects that nest more than `levels` deep are
kept as they are written. -/
def readValue? : (steps levels : Nat) → List Char → Option (Json × List Char)
  | 0, _, _ => none
  | steps + 1, levels, cs =>
    let cs := skipBlanks cs
    match cs with
    | 'n' :: 'u' :: 'l' :: 'l' :: rest => some (null, rest)
    | 't' :: 'r' :: 'u' :: 'e' :: rest => some (bool true, rest)
    | 'f' :: 'a' :: 'l' :: 's' :: 'e' :: rest => some (bool false, rest)
    | '"' :: rest => orKeep cs ((readString? [] rest).map fun (text, rest) => (str text, rest))
    | '[' :: rest =>
      orKeep cs
        (match levels with
        | 0 => none
        | levels + 1 =>
          match skipBlanks rest with
          | ']' :: rest => some (arr [], rest)
          | rest => readItems? steps levels [] rest)
    | '\x7b' :: rest =>
      orKeep cs
        (match levels with
        | 0 => none
        | levels + 1 =>
          match skipBlanks rest with
          | '\x7d' :: rest => some (obj [], rest)
          | rest => readMembers? steps levels [] rest)
    | rest => readNumber? rest

/-- Read the items of an array up to its closing bracket; `read` holds those so far, the last
first. -/
def readItems? : (steps levels : Nat) → (read : List Json) → List Char →
    Option (Json × List Char)
  | 0, _, _, _ => none
  | steps + 1, levels, read, cs =>
    match readValue? steps levels cs with
    | none => none
    | some (item, rest) =>
      match skipBlanks rest with
      | ',' :: rest => readItems? steps levels (item :: read) rest
      | ']' :: rest => some (arr (item :: read).reverse, rest)
      | _ => none

/-- Read the members of an object up to its closing brace; `read` holds those so far, the last
first. -/
def readMembers? : (steps levels : Nat) → (read : List (String × Json)) → List Char →
    Option (Json × List Char)
  | 0, _, _, _ => none
  | steps + 1, levels, read, cs =>
    match skipBlanks cs with
    | '"' :: rest =>
      match readString? [] rest with
      | none => none
      | some (name, rest) =>
        match skipBlanks rest with
        | ':' :: rest =>
          match readValue? steps levels rest with
          | none => none
          | some (value, rest) =>
            match skipBlanks rest with
            | ',' :: rest => readMembers? steps levels ((name, value) :: read) rest
            | '\x7d' :: rest => some (obj ((name, value) :: read).reverse, rest)
            | _ => none
        | _ => none
    | _ => none

end

/-- **Read a document.**  Arrays and objects that nest more than `levels` deep are kept as they are
written. -/
def parse? (levels : Nat) (text : String) : Option Json :=
  let cs := text.toList
  match readValue? (cs.length + 1) levels cs with
  | some (value, rest) => if (skipBlanks rest).isEmpty then some value else none
  | none => none

/-! ## Writing -/

def hexDigit (n : Nat) : Char :=
  if n < 10 then Char.ofNat ('0'.toNat + n) else Char.ofNat ('a'.toNat + (n - 10))

/-- Write a character of a text behind what was written before. -/
def writeChar (written : String) (c : Char) : String :=
  if c = '"' then written ++ "\\\""
  else if c = '\\' then written ++ "\\\\"
  else if c = '\n' then written ++ "\\n"
  else if c = '\r' then written ++ "\\r"
  else if c = '\t' then written ++ "\\t"
  else if c.toNat < 0x20 then
    (written ++ "\\u00").push (hexDigit (c.toNat / 16)) |>.push (hexDigit (c.toNat % 16))
  else written.push c

/-- Write a text between quotes. -/
def writeString (written : String) (text : String) : String :=
  (text.toList.foldl writeChar (written.push '"')).push '"'

mutual

/-- Write a value behind what was written before. -/
def write (written : String) : Json → String
  | null => written ++ "null"
  | bool value => written ++ (if value then "true" else "false")
  | int value => written ++ toString value
  | raw text => written ++ text
  | str value => writeString written value
  | arr items => (writeItems (written.push '[') true items).push ']'
  | obj members => (writeMembers (written.push '\x7b') true members).push '\x7d'

/-- Write the items of an array; all but the first follow a comma. -/
def writeItems (written : String) (first : Bool) : List Json → String
  | [] => written
  | item :: rest =>
    writeItems (write (if first then written else written.push ',') item) false rest

/-- Write the members of an object; all but the first follow a comma. -/
def writeMembers (written : String) (first : Bool) : List (String × Json) → String
  | [] => written
  | member :: rest =>
    let named := writeString (if first then written else written.push ',') member.1
    writeMembers (write (named.push ':') member.2) false rest

end

/-- The text of a value. -/
def render (value : Json) : String := write "" value

end StackBackend.Json
