import StackBackend.Machine.Step

/-!
# Runs and sessions

A run carries out instructions until its first frame is left, an instruction fails, or the steps
it may take are used up.  Every instruction is one step, label definitions included; leaving a
frame by falling off its end is none.  A session is a sequence of runs on one class that share the
heap, the printed lines, the count of open calls and the step count.

- `Machine` is the state of a run: the innermost frame, its callers and the world;
- `Machine.settle` leaves the frames that have no instruction left;
- `Machine.run` is a run within a number of steps, by recursion on that number;
- `Session.runMain`, `Session.invoke` and `Session.runCode` are the runs a session offers.

A call is counted when it is opened and no longer when it is left, by returning, by falling off the
end of its code or by a fault.  A fault leaves all frames at once, so a run that fails takes back as
many calls as are open in it.
-/

namespace StackBackend

/-- The state of a run. -/
structure Machine where
  frame : Frame
  callers : List Frame := []
  world : World := {}
deriving Inhabited

/-- What a finished run leaves behind. -/
structure Outcome where
  /-- The value returned. -/
  returned : Option Value := none
  /-- Whether a return instruction ended the run; otherwise control fell off the end. -/
  exited : Bool
  stack : List Value
  locals : Array Value
deriving Inhabited

namespace Machine

/-- Leave every frame that has no instruction left, up to one that has: then that is the next
instruction. -/
def settle : (callers : List Frame) → (frame : Frame) → (world : World) →
    Except (Outcome × World) (Instruction × Machine)
  | [], frame, world =>
    match frame.code[frame.pc]? with
    | some i => .ok (i, { frame, world })
    | none => .error ({ exited := false, stack := frame.stack, locals := frame.locals }, world)
  | caller :: callers, frame, world =>
    match frame.code[frame.pc]? with
    | some i => .ok (i, { frame, callers := caller :: callers, world })
    | none => settle callers (caller.receive frame.use none) (world.leave 1)

/-- The state or the end that an instruction leads to. -/
def follow (callers : List Frame) (w : World) : Control → Except Outcome Machine
  | .next frame => .ok { frame, callers, world := w }
  | .enter caller callee => .ok { frame := callee, callers := caller :: callers, world := w }
  | .leave frame result =>
    match callers with
    | caller :: callers =>
      .ok { frame := caller.receive frame.use result, callers, world := w.leave 1 }
    | [] => .error { returned := result, exited := true, stack := frame.stack
                     locals := frame.locals }

/-- How a run ended: with an outcome or a fault, in a world, after a number of steps. -/
structure End where
  result : Except Fault Outcome
  world : World
  steps : Nat

/-- **A run of at most `budget` steps.**  `taken` steps have been taken before and `limit` is the
limit to report when the budget does not suffice; the step that exceeds it is counted.  A fault
leaves every frame, each but the first being a call that this run has opened. -/
def run (c : ClassFile) (limit : Nat) : (budget taken : Nat) → Machine → End
  | budget, taken, m =>
    match settle m.callers m.frame m.world with
    | .error (outcome, w) => ⟨.ok outcome, w, taken⟩
    | .ok (i, m) =>
      match budget with
      | 0 => ⟨.error (.stepLimit limit), m.world.leave m.callers.length, taken + 1⟩
      | budget + 1 =>
        match { m.frame with pc := m.frame.pc + 1 }.execute c i m.world with
        | (.error e, w) => ⟨.error e, w.leave m.callers.length, taken + 1⟩
        | (.ok control, w) =>
          match follow m.callers w control with
          | .error outcome => ⟨.ok outcome, w, taken + 1⟩
          | .ok m => run c limit budget (taken + 1) m

end Machine

/-- The number of steps a session may take unless told otherwise. -/
def defaultStepLimit : Nat := 10000000

/-- Runs on one class. -/
structure Session where
  classFile : ClassFile
  stepLimit : Nat := defaultStepLimit
  world : World := {}
  /-- Steps taken so far. -/
  steps : Nat := 0

namespace Session

/-- Run from a frame, within the steps that are left. -/
def runFrame (s : Session) (frame : Frame) : Except Fault Outcome × Session :=
  let e := Machine.run s.classFile s.stepLimit (s.stepLimit - s.steps) s.steps
    { frame, world := s.world }
  (e.result, { s with world := e.world, steps := e.steps })

/-- Run from a frame, if there is one, that counts for a number of calls: one for a method and none
for bare code.  They are open while the frame runs, however the run ends. -/
def start (s : Session) (calls : Nat) : Except Fault Frame → Except Fault Outcome × Session
  | .error e => (.error e, s)
  | .ok frame =>
    let (result, s) := { s with world := s.world.enter calls }.runFrame frame
    (result, { s with world := s.world.leave calls })

/-- Make an initialized instance of the class. -/
def newInstance (s : Session) : Value × Session :=
  let (v, heap) := s.world.heap.alloc (.inst s.classFile.name)
  (v, { s with world := { s.world with heap } })

/-- Call the entry point: the first static method called `main`. -/
def runMain (s : Session) : Except Fault Outcome × Session :=
  match s.classFile.methods.find? (fun m => m.name == "main" && m.isStatic) with
  | none => (.error .noEntryPoint, s)
  | some method => s.start 1 (Frame.call method none [.null] s.world.depth .ifAny)

/-- Call a method by name; a static method ignores the receiver. -/
def invoke (s : Session) (receiver : Value) (name : String) (args : List Value) :
    Except Fault Outcome × Session :=
  s.start 1 do
    let method ← s.classFile.resolve name
    Frame.call method (some receiver) args s.world.depth .ifAny

/-- Run bare code with the given locals. -/
def runCode (s : Session) (code : Code) (locals : Array Value) : Except Fault Outcome × Session :=
  s.start 0 (Frame.fragment code locals)

end Session

end StackBackend
