import StackBackend.Cli.Host
import StackBackend.Cli.Path

/-!
# A host in memory

A tree of files as a value, and the command's surroundings made of it.  The command works in one
directory of the tree, from which its relative paths start.

- `FileTree` is the tree with what was printed;
- `FileTree.host` is the host, whose operations fail the way a file system's do.

A path is followed part by part.  Every part but the last has to lead to a directory, and the first
that does not decides the error.
-/

namespace StackBackend.Cli

/-- A place in a tree: the names that lead to it from the root. -/
abbrev Place := List String

/-- What stands at a place. -/
inductive Node where
  | file (text : String)
  | dir
deriving DecidableEq, Inhabited

/-- Files and directories by place, and the text printed so far.  The root is always there. -/
structure FileTree where
  nodes : List (Place × Node) := []
  /-- The directory that relative paths start from. -/
  workDir : Place := []
  printed : String := ""
deriving Inhabited

namespace FileTree

/-- How many bytes a name may have. -/
def maxName : Nat := 255

/-- How many bytes a path may have. -/
def maxPath : Nat := 4095

/-- What stands at a place. -/
def get? (t : FileTree) (place : Place) : Option Node :=
  if place = [] then some .dir else t.nodes.lookup place

def put (t : FileTree) (place : Place) (node : Node) : FileTree :=
  { t with nodes := t.nodes.filter (·.1 != place) ++ [(place, node)] }

def erase (t : FileTree) (place : Place) : FileTree :=
  { t with nodes := t.nodes.filter (·.1 != place) }

/-! ## Following paths -/

/-- Where a part of a path leads from a directory. -/
def follow (dir : Place) (part : String) : Except FileError Place :=
  if part = "." then .ok dir
  else if part = ".." then .ok dir.dropLast
  else if maxName < part.utf8ByteSize then .error .nameTooLong
  else .ok (dir ++ [part])

/-- The directory that a part of a path leads to from another. -/
def enter (t : FileTree) (dir : Place) (part : String) : Except FileError Place := do
  let place ← follow dir part
  match t.get? place with
  | some .dir => .ok place
  | some (.file _) => .error .notADirectory
  | none => .error .notFound

/-- The directory that a path is followed to, and the last part, which is left to follow. -/
def approach (t : FileTree) (path : String) : Except FileError (Place × String) := do
  if path = "" then .error .notFound
  else if maxPath < path.utf8ByteSize then .error .nameTooLong
  else
    let start := if Path.isAbsolute path then [] else t.workDir
    let parts := Path.parts path
    let dir ← parts.dropLast.foldlM t.enter start
    .ok (dir, parts.getLast?.getD ".")

/-- The place a path leads to, where something may stand or not.  A slash at the end asks for a
directory. -/
def locate (t : FileTree) (path : String) : Except FileError Place := do
  let (dir, last) ← t.approach path
  let place ← follow dir last
  match t.get? place with
  | some (.file _) => if path.endsWith "/" then .error .notADirectory else .ok place
  | _ => .ok place

/-! ## Operations -/

def readText (t : FileTree) (path : String) : Except FileError String := do
  match t.get? (← t.locate path) with
  | some (.file text) => .ok text
  | some .dir => .error .isADirectory
  | none => .error .notFound

/-- Make a directory in one that exists. -/
def makeDir (t : FileTree) (path : String) : Except FileError FileTree := do
  let (dir, last) ← t.approach path
  let place ← follow dir last
  match t.get? place with
  | some _ => .error .alreadyExists
  | none => .ok (t.put place .dir)

/-- Whether there is a directory at a path. -/
def isDir (t : FileTree) (path : String) : Bool :=
  match t.locate path with
  | .ok place => t.get? place == some .dir
  | .error _ => false

/-- The plain files right inside a directory, those whose paths are too long excepted. -/
def plainFiles (t : FileTree) (path : String) : Except FileError (List String) := do
  let dir ← t.locate path
  let paths := t.nodes.filterMap fun (place, node) =>
    match node with
    | .file _ => if place.dropLast = dir then place.getLast?.map (Path.join path) else none
    | .dir => none
  .ok (paths.filter (·.utf8ByteSize ≤ maxPath))

def remove (t : FileTree) (path : String) : Except FileError FileTree := do
  let place ← t.locate path
  match t.get? place with
  | some (.file _) => .ok (t.erase place)
  | some .dir => .error .isADirectory
  | none => .error .notFound

/-- Write a file, replacing what it held. -/
def writeText (t : FileTree) (path text : String) : Except FileError FileTree := do
  let place ← t.locate path
  match t.get? place with
  | some .dir => .error .isADirectory
  | _ => .ok (t.put place (.file text))

/-! ## Whole trees -/

/-- A tree after a change, or as it was if that fails. -/
def orSame (t : FileTree) : Except FileError FileTree → FileTree
  | .ok t => t
  | .error _ => t

/-- Add a file, and the directories it is in. -/
def addFile (t : FileTree) (path text : String) : FileTree :=
  let names := Path.names path
  let outer (n : Nat) : String := Path.ofNames (Path.isAbsolute path) (names.take n)
  let dirs := (List.range names.length).map outer
  let t := dirs.foldl (fun t dir => t.orSame (t.makeDir dir)) t
  t.orSame (t.writeText path text)

/-- A tree with files in its working directory, which is not the root. -/
def ofFiles (files : List (String × String)) : FileTree :=
  let workDir := ["work"]
  files.foldl (fun t (path, text) => t.addFile path text) { nodes := [(workDir, .dir)], workDir }

/-- The files in the working directory and below it, by their paths from there. -/
def files (t : FileTree) : List (String × String) :=
  t.nodes.filterMap fun (place, node) =>
    match node with
    | .file text =>
      if place.take t.workDir.length = t.workDir then
        some (Path.ofNames false (place.drop t.workDir.length), text)
      else none
    | .dir => none

/-! ## The host -/

/-- Ask something of a tree. -/
def ask {α : Type} (question : FileTree → α) : StateM FileTree α := fun t => (question t, t)

/-- Change a tree, or leave it if that fails. -/
def change (step : FileTree → Except FileError FileTree) :
    StateM FileTree (Except FileError Unit) := fun t =>
  match step t with
  | .ok t => (.ok (), t)
  | .error e => (.error e, t)

/-- The host that a tree is. -/
def host : Host (StateM FileTree) where
  readText path := ask (·.readText path)
  makeDir path := change (·.makeDir path)
  isDir path := ask (·.isDir path)
  plainFiles dir := ask (·.plainFiles dir)
  remove path := change (·.remove path)
  writeText path text := change (·.writeText path text)
  print text := modify fun t => { t with printed := t.printed ++ text }

end FileTree

end StackBackend.Cli
