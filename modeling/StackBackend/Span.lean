/-!
# Source positions

A position is a line and a column, a span runs from one position to another.  The front end that
checks a program records a span on every node; a node it has nothing to say about carries the
zero span.  Here:

- `Pos`, `Span` and their text, `line:column` and `start-stop`, as error messages show them;
- `Span.isKnown`, which tells a recorded span from the zero span.
-/

namespace StackBackend

/-- A place in the source text.  Lines count from one, so line zero means "not recorded". -/
structure Pos where
  line : UInt64 := 0
  column : UInt64 := 0
deriving DecidableEq, Inhabited

/-- The text `line:column`. -/
def Pos.text (p : Pos) : String :=
  toString p.line ++ ":" ++ toString p.column

/-- A stretch of source text. -/
structure Span where
  start : Pos := {}
  stop : Pos := {}
deriving DecidableEq, Inhabited

namespace Span

/-- The text `start-stop`. -/
def text (s : Span) : String :=
  s.start.text ++ "-" ++ s.stop.text

/-- A span is known when its first line is a real line. -/
def isKnown (s : Span) : Bool :=
  s.start.line != 0

end Span

end StackBackend
