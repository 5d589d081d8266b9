import StackBackend.Assembly.StackProfile

/-!
# Faults

Why a run of the machine stops before its code ends.  `Fault.message` is the only place where
faults are put into words.
-/

namespace StackBackend

/-- A run that cannot go on. -/
inductive Fault where
  /-- An instruction of this method found too few operands. -/
  | stackUnderflow (method : String)
  | typeMismatch (expected found : String)
  | classCast (owner found : String)
  | unknownMethod (method : String)
  | unknownField (field : String)
  | unknownLabel (label : Label)
  /-- The labels of a body are not well formed. -/
  | malformed (error : StackError)
  | indexOutOfBounds (index : Int32) (length : Nat)
  | stringIndex (start stop : Int32) (length : Nat)
  | divisionByZero
  | nullReference (place : String)
  | stackOverflow (frames : Nat)
  | stepLimit (limit : Nat)
  | noEntryPoint
  /-- The machine itself breaks down, on a list that it follows without end.  This is no answer: no
  run of the session comes after it. -/
  | aborted
deriving DecidableEq, Inhabited

def Fault.message : Fault → String
  | stackUnderflow method => "operand stack underflow in " ++ method
  | typeMismatch expected found => "expected " ++ expected ++ ", found " ++ found
  | classCast owner found => "cannot cast " ++ found ++ " to " ++ owner
  | unknownMethod method => "no such method: " ++ method
  | unknownField field => "no such field: " ++ field
  | unknownLabel label => "jump to undefined " ++ label.text
  | malformed error => "malformed code: " ++ error.message
  | indexOutOfBounds index length =>
      "index " ++ toString index.toInt ++ " out of bounds for length " ++ toString length
  | stringIndex start stop length =>
      "string index out of range: " ++ toString start.toInt ++ ".." ++ toString stop.toInt ++ " of "
        ++ toString length
  | divisionByZero => "division by zero"
  | nullReference place => "null reference in " ++ place
  | stackOverflow frames => "call depth exceeded " ++ toString frames ++ " frames"
  | stepLimit limit => "step limit of " ++ toString limit ++ " instructions exceeded"
  | noEntryPoint => "class has no static main method"
  | aborted => "stack overflow"

end StackBackend
