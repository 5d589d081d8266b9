/-!
# Paths

A path is a text of parts with slashes between them.  The part `.` stands for a directory itself
and `..` for the one it is in.  Slashes may be doubled, one in front makes the path start from the
root, and one at the end changes nothing but that a directory is meant.

- `Path.parts` are the parts of a path;
- `Path.names` are the parts that lead somewhere, so a path without its last name is the path of the
  directory that it is in;
- `Path.join` is the path of a file in a directory.
-/

namespace StackBackend.Cli.Path

/-- Whether a path starts from the root. -/
def isAbsolute (path : String) : Bool := path.startsWith "/"

/-- The parts of a path, without the empty ones around slashes. -/
def parts (path : String) : List String := (path.splitOn "/").filter (· != "")

/-- The parts of a path that lead somewhere: all but `.`. -/
def names (path : String) : List String := (parts path).filter (· != ".")

/-- The path of names, from the root or not. -/
def ofNames (absolute : Bool) (names : List String) : String :=
  (if absolute then "/" else "") ++ "/".intercalate names

/-- The path of a file in a directory. -/
def join (dir file : String) : String :=
  if dir.endsWith "/" then dir ++ file else dir ++ "/" ++ file

end StackBackend.Cli.Path
