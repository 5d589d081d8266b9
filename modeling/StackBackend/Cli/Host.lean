/-!
# What the command needs of its surroundings

Files to read and write, and a place to print to.  `Host` has these as operations of a monad, so
the command can be run on a file system and on a value in memory alike.

- `FileError` says why an operation on files fails, `FileError.message` puts it into words;
- `Host` is the surroundings.
-/

namespace StackBackend.Cli

/-- Why an operation on files fails. -/
inductive FileError where
  | notFound
  | permissionDenied
  | alreadyExists
  | notADirectory
  | isADirectory
  | nameTooLong
  /-- Any other failure, in the words of the surroundings. -/
  | other (reason : String)
deriving DecidableEq, Inhabited

def FileError.message : FileError → String
  | notFound => "No such file or directory (os error 2)"
  | permissionDenied => "Permission denied (os error 13)"
  | alreadyExists => "File exists (os error 17)"
  | notADirectory => "Not a directory (os error 20)"
  | isADirectory => "Is a directory (os error 21)"
  | nameTooLong => "File name too long (os error 36)"
  | other reason => reason

/-- The surroundings of the command. -/
structure Host (m : Type → Type) where
  readText : (path : String) → m (Except FileError String)
  /-- Make a directory in one that exists. -/
  makeDir : (path : String) → m (Except FileError Unit)
  /-- Whether there is a directory at a path. -/
  isDir : (path : String) → m Bool
  /-- The paths of the plain files in a directory. -/
  plainFiles : (dir : String) → m (Except FileError (List String))
  remove : (path : String) → m (Except FileError Unit)
  writeText : (path text : String) → m (Except FileError Unit)
  print : (text : String) → m Unit

end StackBackend.Cli
