import StackBackend.Cli.Host
import StackBackend.Cli.Options
import StackBackend.Cli.Path
import StackBackend.Document.Text
import StackBackend.Lowering.ClassUnit
import StackBackend.Machine.Session

/-!
# The command

The command reads a program file, lowers it, writes or prints the assembly, and runs the program
if asked to.  What it needs of its surroundings is a `Host`, and the same command serves every
host.

- `Command.run` is the command with its options;
- `Command.perform` is the command with its arguments: its exit code and the error to report.

The output directory is emptied of plain files before the program is lowered, and the assembly
file is there, empty, when lowering fails.
-/

namespace StackBackend.Cli

/-- What `--version` prints. -/
def versionLine : String := "codegen 0.1.0\n"

/-- The file that receives the assembly. -/
def outputFile : String := "Main.j"

namespace Command

variable {m : Type → Type} [Monad m]

/-- Why an action does not finish. -/
inductive Failure where
  /-- There is an error to report. -/
  | reported (message : String)
  /-- The command itself breaks down, with an exit code that is none of its own. -/
  | brokenDown (exitCode : Nat)
deriving DecidableEq, Inhabited

/-- An error, and what it was about. -/
def Failure.about (what reason : String) : Failure := .reported (what ++ ": " ++ reason)

/-- A program that is not lowered. -/
def Failure.ofLowering : LoweringError → Failure
  | .outOfSlots => .brokenDown 101
  | e => .about "lowering program" e.message

/-- A run that fails. -/
def Failure.ofFault : Fault → Failure
  | .aborted => .brokenDown 134
  | fault => .about "running program" fault.message

/-- An action that may fail. -/
abbrev Action (m : Type → Type) (α : Type) := ExceptT Failure m α

/-- An operation on files; one that fails is reported in its own words. -/
def attempting {α : Type} (operation : m (Except FileError α)) : Action m α :=
  ExceptT.mk do return (← operation).mapError fun e => .reported e.message

/-- An operation on files; one that fails is reported with what it was about. -/
def about {α : Type} (what : String) (operation : m (Except FileError α)) : Action m α :=
  ExceptT.mk do return (← operation).mapError fun e => .about what e.message

/-- Remove files one after the other. -/
def removeAll (host : Host m) : List String → Action m Unit
  | [] => pure ()
  | path :: rest => do
    about ("removing " ++ path) (host.remove path)
    removeAll host rest

/-- What came of making a directory: where there is one, it may have been there before. -/
def settle (host : Host m) (path : String) : Except FileError Unit → m (Except FileError Unit)
  | .ok _ => return .ok ()
  | .error e => return if ← host.isDir path then .ok () else .error e

/-- Make a directory, unless there is one already.  If one that it is in is missing, `makeOuter`
comes first. -/
def makeDirIn (host : Host m) (path : String) (makeOuter : m (Except FileError Unit)) :
    m (Except FileError Unit) := do
  match ← host.makeDir path with
  | .error .notFound =>
    match ← makeOuter with
    | .error e => return .error e
    | .ok _ => settle host path (← host.makeDir path)
  | made => settle host path made

/-- Make the directory that names lead to, the last name first, and those it is in. -/
def makeNamed (host : Host m) (absolute : Bool) : List String → m (Except FileError Unit)
  | [] => return .ok ()
  | name :: outer =>
    makeDirIn host (Path.ofNames absolute (name :: outer).reverse) (makeNamed host absolute outer)

/-- Make a directory and those it is in.  The path itself is tried as it is written, so one that
ends in `.` needs the directory in front of it to be there. -/
def makeDirs (host : Host m) (path : String) : m (Except FileError Unit) :=
  makeDirIn host path (makeNamed host (Path.isAbsolute path) (Path.names path).reverse.tail)

/-- Make the output directory, empty it of plain files, and give the path of the assembly file. -/
def prepareOutput (host : Host m) (dir : String) : Action m String := do
  about ("creating " ++ dir) (makeDirs host dir)
  let stale ← attempting (host.plainFiles dir)
  removeAll host stale
  return Path.join dir outputFile

/-- Lower a program, and print the assembly or write it to a file. -/
def emit (host : Host m) (options : Options) (program : CheckedProgram) : Action m ClassFile := do
  let config : Config := { stackLimit := options.stackLimit, localsLimit := options.localsLimit }
  let lowered : Action m ClassFile := ExceptT.mk do
    return (compile program config).mapError Failure.ofLowering
  if options.dump then
    let c ← lowered
    host.print c.text
    return c
  else
    let path ← prepareOutput host options.outputDir
    about ("creating " ++ path) (host.writeText path "")
    let c ← lowered
    about "lowering program" (host.writeText path c.text)
    return c

/-- Run a class from its entry point and print its lines. -/
def execute (host : Host m) (c : ClassFile) : Action m Unit := do
  let (result, session) := Session.runMain { classFile := c }
  host.print (Assembly.render session.world.printed.toList)
  match result with
  | .ok _ => pure ()
  | .error fault => throw (.ofFault fault)

/-- The command with its options. -/
def run (host : Host m) (options : Options) : Action m Unit := do
  let text ← about ("reading " ++ options.input) (host.readText options.input)
  match CheckedProgram.ofText text with
  | .error _ => throw (.reported ("parsing " ++ options.input))
  | .ok program =>
    let c ← emit host options program
    if options.run then execute host c else pure ()

/-- How the command ends. -/
structure Ending where
  exitCode : Nat
  /-- The error to report. -/
  error : Option String := none
deriving DecidableEq, Inhabited

/-- **The command with its arguments.** -/
def perform (host : Host m) (arguments : List String) : m Ending := do
  match Options.parse arguments with
  | .error .version =>
    host.print versionLine
    return { exitCode := 0 }
  | .error .help => return { exitCode := 0 }
  | .error .badUsage => return { exitCode := 2 }
  | .ok options =>
    match ← (run host options).run with
    | .ok _ => return { exitCode := 0 }
    | .error (.reported message) => return { exitCode := 1, error := some ("error: " ++ message) }
    | .error (.brokenDown exitCode) => return { exitCode }

end Command

end StackBackend.Cli
