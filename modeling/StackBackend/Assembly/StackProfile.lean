import StackBackend.Assembly.Instruction

/-!
# Operand stack depth

A flat sequence of instructions is well behaved when no instruction pops more than the stack
holds and all ways of reaching a place agree on the depth there.  `StackProfile.analyze` follows
every way through the code and either reports the first fault or returns the depth at every place.

- `Instruction.pops` and `Instruction.pushes` are the effect of one instruction;
- `labelTable` locates the labels of a sequence and refuses one defined twice;
- `StackProfile.analyze` is the analysis.

Depths have sixteen bits, and so has the number of operands of a call: of an arity it keeps the last
sixteen bits.  An analysis that would need more breaks off.

Places still to be visited wait in a list.  A visited place is never visited again, so there are
at most as many visits as places: the exploration is bounded by that number and no other.
-/

namespace StackBackend

/-- Why code is refused. -/
inductive StackError where
  | underflow (place : Nat)
  /-- Two ways to one place disagree. -/
  | mismatch (place expected found : Nat)
  | unknownLabel (label : Label)
  | duplicateLabel (label : Label)
  /-- A depth does not fit sixteen bits.  This is no refusal: the analysis breaks off without an
  answer. -/
  | overflow
deriving DecidableEq, Inhabited

def StackError.message : StackError → String
  | underflow place => "stack underflow at instruction " ++ toString place
  | mismatch place expected found =>
      "inconsistent stack depth at instruction " ++ toString place ++ ": " ++ toString expected
        ++ " vs " ++ toString found
  | unknownLabel label => "jump to undefined " ++ label.text
  | duplicateLabel label => label.text ++ " is defined more than once"
  | overflow => "attempt to add with overflow"

/-- The greatest depth that can be counted. -/
def depthLimit : Nat := 65535

namespace Instruction

/-- Number of operands an instruction takes from the stack. -/
def pops : Instruction → Nat
  | load _ | ldc _ | zero | new _ | getStatic _ | jump _ | label _ | ret => 0
  | store _ | pop | ifZero _ | ifNonzero _ | retValue | dup | cast _ | neg => 1
  | swap | arith _ | ifInt .. | ifRef .. => 2
  | invoke .static method => method.arity % (depthLimit + 1)
  | invoke _ method => method.arity % (depthLimit + 1) + 1

/-- Number of results an instruction leaves on the stack. -/
def pushes : Instruction → Nat
  | store _ | pop | ifZero _ | ifNonzero _ | retValue | ifInt .. | ifRef .. | jump _ | label _
  | ret => 0
  | load _ | ldc _ | zero | new _ | getStatic _ | cast _ | neg | arith _ => 1
  | dup | swap => 2
  | invoke _ method => if method.returnsValue then 1 else 0

end Instruction

/-! ## Labels -/

/-- Where labels are defined. -/
abbrev LabelTable := List (Label × Nat)

/-- Extend a table by the labels of a sequence that starts at `place`. -/
def labelTableFrom : Nat → LabelTable → List Instruction → Except StackError LabelTable
  | _, table, [] => .ok table
  | place, table, .label l :: rest =>
    match table.lookup l with
    | some _ => .error (.duplicateLabel l)
    | none => labelTableFrom (place + 1) ((l, place) :: table) rest
  | place, table, _ :: rest => labelTableFrom (place + 1) table rest

/-- The labels of a sequence, unless one is defined twice. -/
def labelTable (code : Code) : Except StackError LabelTable :=
  labelTableFrom 0 [] code.toList

/-! ## Exploration -/

namespace StackProfile

/-- A place and the depth it is reached with. -/
structure Arrival where
  place : Nat
  depth : Nat
deriving DecidableEq, Inhabited

/-- What is known while the code is explored. -/
structure Progress where
  /-- The depth at each visited place, the end of the code included. -/
  depths : Array (Option Nat)
  /-- Arrivals still to be looked at, the next one first. -/
  pending : List Arrival
  /-- The greatest depth before or after a visited instruction. -/
  deepest : Nat

/-- The next arrival at a place not visited before, and the arrivals after it.  An arrival at a
visited place must agree with the depth recorded there. -/
def nextArrival (depths : Array (Option Nat)) :
    List Arrival → Except StackError (Option (Arrival × List Arrival))
  | [] => .ok none
  | a :: rest =>
    match depths[a.place]? with
    | some (some seen) =>
      if seen = a.depth then nextArrival depths rest
      else .error (.mismatch a.place seen a.depth)
    | _ => .ok (some (a, rest))

/-- Where control can go from an instruction: to the next place first, then to the place of the
label it jumps to. -/
def successors (labels : LabelTable) (i : Instruction) (place after : Nat) :
    Except StackError (List Arrival) :=
  let next := if i.endsBlock then [] else [⟨place + 1, after⟩]
  match i.target? with
  | none => .ok next
  | some label =>
    match labels.lookup label with
    | some target => .ok (next ++ [⟨target, after⟩])
    | none => .error (.unknownLabel label)

/-- Visit a place: record its depth and put the places it leads to in front of those waiting. -/
def visit (code : Code) (labels : LabelTable) (p : Progress) (a : Arrival)
    (rest : List Arrival) : Except StackError Progress :=
  let depths := p.depths.setIfInBounds a.place (some a.depth)
  match code[a.place]? with
  | none => .ok { p with depths, pending := rest }
  | some i =>
    let after := a.depth - i.pops + i.pushes
    if depthLimit < i.pops then .error .overflow
    else if a.depth < i.pops then .error (.underflow a.place)
    else if depthLimit < after then .error .overflow
    else
      match successors labels i a.place after with
      | .error e => .error e
      | .ok next =>
        .ok { depths, pending := next ++ rest, deepest := max p.deepest (max after a.depth) }

/-- Make at most so many visits. -/
def explore (code : Code) (labels : LabelTable) : Nat → Progress → Except StackError Progress
  | 0, p => .ok p
  | visits + 1, p =>
    match nextArrival p.depths p.pending with
    | .error e => .error e
    | .ok none => .ok p
    | .ok (some (a, rest)) =>
      match visit code labels p a rest with
      | .error e => .error e
      | .ok p => explore code labels visits p

end StackProfile

/-- The depths of a well-behaved sequence. -/
structure StackProfile where
  /-- The depth on entry to each instruction; none where control never arrives. -/
  depths : List (Option Nat)
  /-- The depth when control falls off the end, if it can. -/
  exitDepth : Option Nat
  maxDepth : Nat
deriving DecidableEq, Inhabited

namespace StackProfile

/-- What is known before the first visit: control arrives at the first place with an empty
stack. -/
def start (code : Code) : Progress where
  depths := Array.replicate (code.size + 1) none
  pending := [⟨0, 0⟩]
  deepest := 0

/-- **The analysis.**  There are `code.size + 1` places to visit, and one more round to see that
nothing is waiting. -/
def analyze (code : Code) : Except StackError StackProfile :=
  match labelTable code with
  | .error e => .error e
  | .ok labels =>
    match explore code labels (code.size + 2) (start code) with
    | .error e => .error e
    | .ok p =>
      .ok { depths := p.depths.toList.take code.size
            exitDepth := p.depths[code.size]?.join
            maxDepth := p.deepest }

end StackProfile

end StackBackend
