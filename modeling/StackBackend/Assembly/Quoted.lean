/-!
# Quoted text

Text constants stand between double quotes in assembly.  A quote, a backslash, a newline, a tab
and a carriage return inside the text are written with a backslash; every other character stands
for itself.

- `escape` writes one character, `escapeAll` a whole text, `quote` adds the quotes.
-/

namespace StackBackend.Quoted

/-- The written form of one character. -/
def escape : Char → List Char
  | '"' => ['\\', '"']
  | '\\' => ['\\', '\\']
  | '\n' => ['\\', 'n']
  | '\t' => ['\\', 't']
  | '\r' => ['\\', 'r']
  | c => [c]

/-- The written form of a text, without the quotes. -/
def escapeAll : List Char → List Char
  | [] => []
  | c :: rest => escape c ++ escapeAll rest

/-- The written form of a text, between quotes. -/
def quote (text : String) : String :=
  String.ofList ('"' :: escapeAll text.toList ++ ['"'])

end StackBackend.Quoted
