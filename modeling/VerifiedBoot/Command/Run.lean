import VerifiedBoot.Command.Arguments
import VerifiedBoot.Command.FileTree
import VerifiedBoot.Command.Report
import VerifiedBoot.Partition.Pattern

/-!
# Running commands

`check` verifies the partitions that a pattern maps to files, and reports. `fix` verifies, repairs
what it can with the keys of a directory, and writes the repaired images back in place, or copies of
their partitions to another directory.

A run goes from a tree of files to another, with the text that it prints. Both are there also where
it fails, and hold what was done before.
-/

namespace VerifiedBoot

/-- What a run has done so far. -/
structure RunState where
  tree : FileTree
  output : String
  deriving DecidableEq, Repr

/-- A run that may fail and leaves a state behind in either case. -/
abbrev Session := ExceptT Error (StateM RunState)

/-- What a run ended with. -/
structure Outcome where
  /-- The exit code, unless the run failed with an error that no user can act on. -/
  exit : Except Error Nat
  /-- The domain error that ended the run, if one did. -/
  complaint : Option Error
  state : RunState

namespace Session

/-- Prints a text. -/
def print (text : String) : Session Unit :=
  modify fun state => { state with output := state.output ++ text }

/-- The contents of a file. -/
def readFile (path : String) : Session Bytes := do
  ofExcept ((← get).tree.read path)

/-- Writes a file. -/
def writeFile (path : String) (data : Bytes) : Session Unit := do
  let state ← get
  set { state with tree := ← ofExcept (state.tree.write path data) }

/-- The names that the images in any of the files refer to. -/
def mentioned (suite : Suite) (tree : FileTree) : List String :=
  tree.files.flatMap fun file =>
    match PartitionInfo.readImage suite file.2 with
    | .ok (some image) => image.descriptors.filterMap Descriptor.target?
    | _ => []

/-- The contents of the file of a partition. -/
def readPartition (tree : FileTree) (pattern : Pattern) (name : String) : Except Error Bytes := do
  tree.read (← pattern.pathFor name)

/-- Why there is no partition under a name: it cannot be put into a path, or its file cannot be
read. -/
def absence (tree : FileTree) (pattern : Pattern) (name : String) : Error :=
  match readPartition tree pattern name with
  | .error e => e
  | .ok _ => .partitionMissing name

/-- The partitions among the files that a walk from a root can come upon. -/
def storeOf (suite : Suite) (tree : FileTree) (pattern : Pattern) (root : String) : Store :=
  let names := (root :: mentioned suite tree).eraseDups
  let find (name : String) : Option (String × Bytes) := do
    return (name, ← (readPartition tree pattern name).toOption)
  ⟨names.filterMap find, absence tree pattern⟩

/-- Verifies a root partition and reports. -/
def verify (suite : Suite) (pattern : Pattern) (root : String) (describe : Bool) :
    Session Verification := do
  let store := storeOf suite (← get).tree pattern root
  let found ← ofExcept (Verifier.verify ⟨suite, Verifier.defaultChunkSize⟩ store root)
  print (← ofExcept (found.report describe))
  return found

/-- The exit code for what was found. -/
def exitCode (found : Verification) : Nat :=
  if found.issues.isEmpty then 0 else 1

/-- A value that has to be there. -/
def demand {α : Type} (name : String) : Option α → Session α
  | some value => return value
  | none => throw (.valueMissing name)

/-- What is done with an alignment. Without one all is done up to the point where it is needed. -/
def withAlignment (alignment : Option Int) (act : Int → Except Error Unit × Written) :
    Except Error Unit × Written :=
  match alignment with
  | some alignment => act alignment
  | none =>
    match act 0 with
    | (.error .divisionByZero, written) => (.error (.valueMissing "--alignment"), written)
    | other => other

/-- What is done within a limit. Without one all is done up to the point where it is needed. -/
def withLimit {α : Type} (limit : Option Int) (act : Int → Except Error α) : Except Error α :=
  match limit with
  | some limit => act limit
  | none =>
    match act 0 with
    | .error (.unrepairable .tooManySteps) => .error (.valueMissing "--max-iterations")
    | other => other

/-- Writes a request into the file of its partition. -/
def writeBack (suite : Suite) (pattern : Pattern) (alignment : Option Int) (request : Request) :
    Session Unit := do
  print s!"Rewriting partition {request.partition}\n"
  let path ← ofExcept (pattern.pathFor request.partition)
  let file ← readFile path
  let (outcome, written) := withAlignment alignment (request.applyInPlace suite file)
  writeFile path written.file
  ofExcept outcome

/-- The pattern for copies in another directory, which is made if it is not there. -/
def copyPattern (text outputDir : String) : Session Pattern := do
  let base := Path.baseName text
  if !Pattern.isOpen base then
    throw (.refused .outputPattern)
  let state ← get
  set { state with tree := ← ofExcept (state.tree.makeFolder outputDir) }
  ofExcept (Pattern.ofString (Path.join outputDir base))

/-- Writes a copy of a partition with a request applied. The copy is emptied before anything is
read, so a copy onto the partition itself finds nothing left of it. -/
def copy (suite : Suite) (pattern copies : Pattern) (alignment : Option Int) (request : Request) :
    Session Unit := do
  let path ← ofExcept (copies.pathFor request.partition)
  print s!"Writing rebuilt {request.partition} to {path}\n"
  let sourcePath ← ofExcept (pattern.pathFor request.partition)
  let _ ← readFile sourcePath
  writeFile path []
  let source ← readFile sourcePath
  let (outcome, written) := withAlignment alignment (request.applyToCopy suite source [])
  writeFile path written.file
  ofExcept outcome

/-- Runs `check`. -/
def check (suite : Suite) (root : Option String) (text : String) (describe : Bool) :
    Session Nat := do
  let pattern ← ofExcept (Pattern.ofString text)
  return exitCode (← verify suite pattern (← demand "--root" root) describe)

/-- Runs `fix`. -/
def fix (suite : Suite) (generate : Nat → Except Error KeyPair) (root : Option String)
    (text : String) (keys outputDir : Option String) (alignment limit : Option Int) :
    Session Nat := do
  let pattern ← ofExcept (Pattern.ofString text)
  let root ← demand "--root" root
  let found ← verify suite pattern root false
  if found.issues.isEmpty then
    return 0
  let files ← ofExcept ((← get).tree.list (← demand "KEYS" keys))
  let means : Repair.Means := ⟨Keyring.ofList (← ofExcept (KeyPair.ofFiles files)), generate⟩
  let requests ← ofExcept (withLimit limit (Repair.rebuild means found))
  match outputDir with
  | none =>
    requests.forM (writeBack suite pattern alignment)
    return exitCode (← verify suite pattern root false)
  | some outputDir =>
    let copies ← copyPattern text outputDir
    requests.forM (copy suite pattern copies alignment)
    return 0

/-- Runs what a command line asks for. -/
def perform (suite : Suite) (generate : Nat → Except Error KeyPair) (invocation : Invocation) :
    Session Nat :=
  match invocation.command with
  | .check pattern describe => check suite invocation.root pattern describe
  | .fix pattern keys outputDir alignment limit =>
    fix suite generate invocation.root pattern keys outputDir alignment limit

end Session

namespace Outcome

/-- What a session ends with: a domain error is told to the user and gives exit code 1. -/
def ofSession (session : Session Nat) (tree : FileTree) : Outcome :=
  match StateT.run (ExceptT.run session) ⟨tree, ""⟩ with
  | (.ok code, state) => ⟨.ok code, none, state⟩
  | (.error e, state) =>
    if e.isDomain then ⟨.ok 1, some e, state⟩ else ⟨.error e, none, state⟩

/-- What a command line ends with. One that is not understood gives exit code 2, and one that asks
for help prints how the program is used. -/
def ofArguments (suite : Suite) (generate : Nat → Except Error KeyPair) (tree : FileTree)
    (args : List String) : Outcome :=
  match Invocation.parse args with
  | .error .usage => ⟨.ok 2, none, ⟨tree, ""⟩⟩
  | .error .help => ⟨.ok 0, none, ⟨tree, Invocation.usage⟩⟩
  | .ok invocation => ofSession (Session.perform suite generate invocation) tree

end Outcome

end VerifiedBoot
