import VerifiedBoot.Entries
import VerifiedBoot.Error

/-!
# Trees of files

The files and directories that a command sees, by path. A stored path is in plain form: without
empty components, without `.`, and with `..` only at its head. Other paths are followed component by
component, and at every component but the last the place that is reached so far has to be a
directory. So `a/../b` is `b` only where `a` is a directory.

The directory that paths start from, the root, and the directories above are always there. Any other
is there if it was made or if something is in it.
-/

namespace VerifiedBoot

/-- Files and directories by plain path. -/
structure FileTree where
  files : List (String × Bytes)
  folders : List String
  deriving DecidableEq, Repr

/-- A place that following a path leads to. -/
structure Trail where
  /-- Whether it is counted from the root. -/
  absolute : Bool
  /-- The components of its plain path, last one first. -/
  above : List (List Char)
  deriving DecidableEq, Repr

namespace Trail

/-- The place one component further. Nothing is above the root. -/
def push (trail : Trail) (component : List Char) : Trail :=
  if component = [] ∨ component = ['.'] then trail
  else if component = ['.', '.'] then
    match trail.above with
    | [] => if trail.absolute then trail else { trail with above := [component] }
    | last :: others =>
      { trail with above := if last = component then component :: trail.above else others }
  else { trail with above := component :: trail.above }

/-- The plain path of a place. -/
def plain (trail : Trail) : String :=
  let root : List Char := if trail.absolute then ['/'] else []
  String.ofList (root ++ List.intercalate ['/'] trail.above.reverse)

/-- Whether a place is the start of all paths or above it. -/
def isOutside (trail : Trail) : Bool :=
  trail.above.all (· = ['.', '.'])

end Trail

namespace Path

/-- The components of a path, which slashes separate. -/
def components : List Char → List (List Char)
  | [] => [[]]
  | '/' :: rest => [] :: components rest
  | c :: rest =>
    match components rest with
    | [] => [[c]]
    | component :: others => (c :: component) :: others

/-- Whether a path starts at the root. -/
def isAbsolute (path : String) : Bool :=
  path.toList.head? = some '/'

/-- The place that a path starts from. -/
def start (path : String) : Trail :=
  ⟨isAbsolute path, []⟩

/-- The plain form of a path. -/
def normalize (path : String) : String :=
  ((components path.toList).foldl Trail.push (start path)).plain

/-- The last component of a path, which is empty behind a slash. -/
def baseName (path : String) : String :=
  String.ofList ((components path.toList).getLastD [])

/-- A path within a directory. -/
def join (directory path : String) : String :=
  if isAbsolute path ∨ directory.isEmpty then path
  else if directory.toList.getLast? = some '/' then directory ++ path
  else directory ++ "/" ++ path

/-- The characters that the paths of all that is within a directory start with. -/
def opening (directory : String) : List Char :=
  if directory.isEmpty then []
  else if directory = "/" then ['/']
  else directory.toList ++ ['/']

/-- The rest of a path within a directory, both in plain form. The longer path is the inner one. -/
def within? (directory path : String) : Option String :=
  if path.utf8ByteSize ≤ directory.utf8ByteSize then none
  else
    let opening := opening directory
    if opening.isPrefixOf path.toList then some (String.ofList (path.toList.drop opening.length))
    else none

/-- The bytes of the shortest path that is too long. -/
def sizeLimit : Nat :=
  4096

/-- The bytes of the longest component. -/
def maxComponent : Nat :=
  255

/-- The bytes of a piece of a path. -/
def byteSize (piece : List Char) : Nat :=
  (String.ofList piece).utf8ByteSize

/-- Checks that a path can have a piece, with `size` bytes before it. -/
def checkPiece (path : String) (size : Nat) (piece : List Char) : Except Error Unit :=
  if piece.contains '\x00' then .error (.nulInPath path)
  else if sizeLimit ≤ size + byteSize piece then .error (.nameTooLong path)
  else .ok ()

end Path

/-- What is at a place. -/
inductive Place where
  | file (data : Bytes)
  | folder
  | nothing
  deriving DecidableEq, Repr

namespace FileTree

/-- Whether a plain path is that of a directory that was made or has something in it. -/
def isFolder (tree : FileTree) (plain : String) : Bool :=
  tree.folders.contains plain ||
    tree.folders.any (fun folder => (Path.within? plain folder).isSome) ||
    tree.files.any fun file => (Path.within? plain file.1).isSome

/-- What is at a place. -/
def look (tree : FileTree) (trail : Trail) : Place :=
  match tree.files.lookup trail.plain with
  | some data => .file data
  | none => if trail.isOutside || tree.isFolder trail.plain then .folder else .nothing

/-- Goes from a place to one of its components. -/
def step (tree : FileTree) (path : String) (trail : Trail) (component : List Char) :
    Except Error Trail :=
  match tree.look trail with
  | .file _ => .error (.notFolder path)
  | .nothing => .error (.fileMissing path)
  | .folder =>
    if Path.maxComponent < Path.byteSize component then .error (.nameTooLong path)
    else .ok (trail.push component)

/-- Follows a path to its last component, at which there may be nothing. The empty path leads
nowhere. -/
def walk (tree : FileTree) (path : String) : Except Error Trail := do
  Path.checkPiece path 0 path.toList
  if path.isEmpty then
    throw (.fileMissing path)
  (Path.components path.toList).foldlM (tree.step path) (Path.start path)

/-- The contents of a file. -/
def read (tree : FileTree) (path : String) : Except Error Bytes := do
  match tree.look (← tree.walk path) with
  | .file data => return data
  | .folder => throw (.isFolder path)
  | .nothing => throw (.fileMissing path)

/-- The files right within a directory, by name. -/
def list (tree : FileTree) (path : String) : Except Error (List (String × Bytes)) := do
  let trail ← tree.walk path
  match tree.look trail with
  | .folder =>
    return tree.files.filterMap fun file => do
      let name ← Path.within? trail.plain file.1
      if name.toList.contains '/' then none else some (name, file.2)
  | .file _ => throw (.notFolder path)
  | .nothing => throw (.fileMissing path)

/-- The tree with a file put at a path. -/
def put (tree : FileTree) (path : String) (data : Bytes) : FileTree :=
  { tree with files := Entries.assign tree.files (Path.normalize path) data }

/-- Writes a file, in a directory that is there. -/
def write (tree : FileTree) (path : String) (data : Bytes) : Except Error FileTree := do
  let trail ← tree.walk path
  match tree.look trail with
  | .folder => throw (.isFolder path)
  | .file _ | .nothing => return tree.put trail.plain data

/-- The tree with a directory added. -/
def addFolder (tree : FileTree) (path : String) : FileTree :=
  { tree with folders := tree.folders.insert (Path.normalize path) }

/-- Goes from a place, which is `size` bytes into the path, to one of its components, and makes a
directory there if there is nothing. -/
def stepMaking (path : String) (state : FileTree × Trail × Nat) (component : List Char) :
    Except Error (FileTree × Trail × Nat) := do
  let (tree, trail, size) := state
  Path.checkPiece path size component
  let trail ← tree.step path trail component
  let tree := if tree.look trail = .nothing then tree.addFolder trail.plain else tree
  return (tree, trail, size + Path.byteSize component + 1)

/-- Makes a directory, and those on the way to it, unless they are there. -/
def makeFolder (tree : FileTree) (path : String) : Except Error FileTree := do
  if path.isEmpty then
    throw (.fileMissing path)
  let components := (Path.components path.toList).filter (· ≠ [])
  let (tree, trail, _) ← components.foldlM (stepMaking path) (tree, Path.start path, 0)
  match tree.look trail with
  | .file _ => throw (.fileExists path)
  | _ => return tree

end FileTree

end VerifiedBoot
