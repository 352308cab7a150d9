import VerifiedBoot.Command.Run
import VerifiedBoot.Rsa.Generate

/-!
# The program

The command on real files. A run sees a tree of files that starts out with little more than nothing.
Where it ends for want of a file, what there is at its path is loaded and the run starts over; where
it ends for want of a key, a key is made and the run starts over. Only when a run wants nothing more
that can be had is its text printed and are its files written.
-/

namespace VerifiedBoot

namespace Program

/-- Adds what is at a path to a tree: a file, or a directory without what is in it. -/
def loadOne (tree : FileTree) (path : String) : IO FileTree := do
  let here ← IO.FS.realPath path
  if ← here.isDir then return tree.addFolder path
  else return tree.put path (← IO.FS.readBinFile here).toList

/-- Adds what is at some paths to a tree, as far as there is anything. -/
def loadAll (tree : FileTree) (paths : List String) : IO FileTree :=
  paths.foldlM (fun tree path => do
    match ← (loadOne tree path).toBaseIO with
    | .ok tree => return tree
    | .error _ => return tree) tree

/-- The paths that are passed on the way to a path, and the path itself. -/
def waysTo (path : String) : List String :=
  let components := Path.components path.toList
  (List.range components.length).filterMap fun n =>
    let way := List.intercalate ['/'] (components.take (n + 1))
    if way.isEmpty then none else some (String.ofList way)

/-- The paths of what is right within a directory. -/
def within (path : String) : IO (List String) := do
  match ← (do (← IO.FS.realPath path).readDir : IO _).toBaseIO with
  | .ok entries => return entries.toList.map fun entry => Path.join path entry.fileName
  | .error _ => return []

/-- Adds what there is at a path, on the way to it and right within it. -/
def load (tree : FileTree) (path : String) : IO FileTree := do
  loadAll tree (waysTo path ++ (← within path))

/-- The tree that a command line starts from: what it may write to is known from the start. -/
def start (args : List String) : IO FileTree :=
  match Invocation.parse args with
  | .ok ⟨_, .fix _ _ (some outputDir) _ _⟩ => load ⟨[], []⟩ outputDir
  | _ => return ⟨[], []⟩

/-- A random prime of `bits` bits for a key. -/
partial def makePrime (bits : Nat) : IO Nat := do
  let data ← IO.getRandomBytes (bits / 8 + 1).toUSize
  let number := Rsa.candidate bits data.toList
  if Rsa.isUsable PublicKey.exponent number then return number else makePrime bits

/-- A random key of `bits` bits. -/
partial def makeKey (bits : Nat) : IO Rsa.Key := do
  let p ← makePrime (bits / 2)
  let q ← makePrime (bits / 2)
  match Rsa.Key.ofPrimes p q PublicKey.exponent with
  | .ok key => return key
  | .error _ => makeKey bits

/-- Runs a command line until it wants nothing more. The result holds the tree that the last run
started from. -/
partial def run (args tried : List String) (supply : List Rsa.Key) (tree : FileTree) :
    IO (FileTree × Outcome) := do
  let outcome := Outcome.ofArguments Suite.standard (KeyPair.fresh supply) tree args
  match outcome.exit with
  | .error (.fileMissing path) =>
    if path ∈ tried then return (tree, outcome)
    run args (path :: tried) supply (← load tree path)
  | .error (.noFreshKey bits) => run args tried (supply ++ [← makeKey bits]) tree
  | _ => return (tree, outcome)

/-- Makes the directories and writes the files in which two trees differ. -/
def save (before after : FileTree) : IO Unit := do
  for folder in after.folders do
    unless folder ∈ before.folders do
      IO.FS.createDirAll folder
  for (path, data) in after.files do
    unless before.files.lookup path = some data do
      IO.FS.writeBinFile path ⟨data.toArray⟩

end Program

end VerifiedBoot

/-- Runs the command line and returns its exit code. -/
def main (args : List String) : IO UInt32 := do
  let (tree, outcome) ← VerifiedBoot.Program.run args [] [] (← VerifiedBoot.Program.start args)
  IO.print outcome.state.output
  VerifiedBoot.Program.save tree outcome.state.tree
  if let some complaint := outcome.complaint then
    IO.eprintln complaint.message
  match outcome.exit with
  | .ok code =>
    if code = 2 then IO.eprint VerifiedBoot.Invocation.usage
    return code.toUInt32
  | .error e =>
    IO.eprintln e.message
    return 1
