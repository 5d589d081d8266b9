import StackBackend.Cli.Command

/-!
# The program

The command on the real file system.
-/

namespace StackBackend.Cli

/-- The cause of a failed operation.  Error numbers come with either sign. -/
def FileError.ofSystem : IO.Error → FileError
  | .noFileOrDirectory .. => .notFound
  | .permissionDenied .. => .permissionDenied
  | .alreadyExists .. => .alreadyExists
  | .inappropriateType _ code details =>
    if code = 20 || code = -20 then .notADirectory
    else if code = 21 || code = -21 then .isADirectory
    else .other details
  | .invalidArgument file code details =>
    if code = 36 || code = -36 then .nameTooLong
    else .other (toString (IO.Error.invalidArgument file code details))
  | e => .other (toString e)

/-- Run an operation, keeping its failure as a value. -/
def attempt {α : Type} (operation : IO α) : IO (Except FileError α) := do
  match ← operation.toBaseIO with
  | .ok a => return .ok a
  | .error e => return .error (.ofSystem e)

/-- A path as the system takes it. -/
def systemPath (path : String) := ({ root := ⟨path⟩, fileName := "" } : IO.FS.DirEntry).root

/-- Whether there is a plain file at a path.  What cannot be looked at is none. -/
def isPlainFile (path : String) : IO Bool := do
  match ← (systemPath path).metadata.toBaseIO with
  | .ok data => return (data.type matches .file)
  | .error _ => return false

/-- The paths of the plain files in a directory. -/
def listPlainFiles (dir : String) : IO (List String) := do
  let paths := (← (systemPath dir).readDir).toList.map fun entry => Path.join dir entry.fileName
  paths.filterM isPlainFile

/-- The command's surroundings: files and standard output. -/
def fileSystem : Host IO where
  readText path := attempt (IO.FS.readFile path)
  makeDir path := attempt (IO.FS.createDir path)
  isDir path := (systemPath path).isDir
  plainFiles dir := attempt (listPlainFiles dir)
  remove path := attempt (IO.FS.removeFile path)
  writeText path text := attempt (IO.FS.writeFile path text)
  print text := IO.print text

end StackBackend.Cli

open StackBackend.Cli in
/-- Run the command with its arguments. -/
def main (arguments : List String) : IO UInt32 := do
  let ending ← Command.perform fileSystem arguments
  if let some error := ending.error then IO.eprintln error
  return ending.exitCode.toUInt32
