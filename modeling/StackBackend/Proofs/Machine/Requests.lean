import StackBackend.Proofs.Machine.Moves

/-!
# What a session can be asked for

A session offers three kinds of runs.  A `Request` is one of them with what it needs, so that a
statement about all runs of a session can be made once.

* `Session.answer` — the run that a request asks for, and the session after it;
* `Session.opening` — the state it starts with: the first frame, and the world with the call that
  this frame stands for counted in;
* `Session.answer_of_opening` — the answer is the run from there, with the call counted out again.
-/

namespace StackBackend

/-- What a session can be asked for: to run the entry point, a method, or bare code. -/
inductive Request where
  | main
  | invoke (receiver : Value) (method : String) (args : List Value)
  | fragment (code : Code) (locals : Array Value)

/-- The number of calls that the first frame counts for. -/
def Request.calls : Request → Nat
  | .fragment _ _ => 0
  | _ => 1

namespace Session

/-- The run that a request asks for. -/
def answer (s : Session) : Request → Except Fault Outcome × Session
  | .main => s.runMain
  | .invoke receiver method args => s.invoke receiver method args
  | .fragment code locals => s.runCode code locals

/-- The frame that a request starts with. -/
def firstFrame (s : Session) : Request → Except Fault Frame
  | .main =>
    match s.classFile.methods.find? (fun m => m.name == "main" && m.isStatic) with
    | none => .error .noEntryPoint
    | some method => Frame.call method none [.null] s.world.depth .ifAny
  | .invoke receiver method args => do
    let method ← s.classFile.resolve method
    Frame.call method (some receiver) args s.world.depth .ifAny
  | .fragment code locals => Frame.fragment code locals

/-- **The state that a request starts with.** -/
def opening (s : Session) (request : Request) : Except Fault Machine :=
  (s.firstFrame request).map fun frame => { frame, world := s.world.enter request.calls }

variable {s : Session} {request : Request}

lemma opening_eq_ok {m : Machine} : s.opening request = .ok m ↔
    ∃ frame, s.firstFrame request = .ok frame ∧
      { frame, world := s.world.enter request.calls } = m := by
  rw [opening]
  cases s.firstFrame request <;> simp [Except.map]

lemma opening_eq_error {e : Fault} :
    s.opening request = .error e ↔ s.firstFrame request = .error e := by
  rw [opening]
  cases s.firstFrame request <;> simp [Except.map]

lemma answer_eq_start (s : Session) (request : Request) :
    s.answer request = s.start request.calls (s.firstFrame request) := by
  cases request with
  | main =>
      simp only [answer, runMain, firstFrame, Request.calls]
      cases s.classFile.methods.find? fun m => m.name == "main" && m.isStatic <;> rfl
  | invoke receiver method args => rfl
  | fragment code locals => rfl

/-- A request that cannot be started leaves the session as it is. -/
lemma answer_of_error {e : Fault} (h : s.opening request = .error e) :
    s.answer request = (.error e, s) := by
  rw [answer_eq_start, opening_eq_error.1 h, start]

/-- **The answer to a request is the run from the state it starts with.** -/
lemma answer_of_opening {m : Machine} (h : s.opening request = .ok m) :
    s.answer request =
      let e := Machine.run s.classFile s.stepLimit (s.stepLimit - s.steps) s.steps m
      (e.result, { s with world := e.world.leave request.calls, steps := e.steps }) := by
  obtain ⟨frame, hframe, rfl⟩ := opening_eq_ok.1 h
  rw [answer_eq_start, hframe]
  rfl

end Session

end StackBackend
