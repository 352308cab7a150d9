import VerifiedBoot.Walk.Issue
import VerifiedBoot.Walk.Measure

/-!
# Walking the chain of trust

Verification starts at the image of a root partition and follows its descriptors. A hash descriptor
is checked against the partition that it names, and through the footer of that partition against the
hash that the partition keeps of itself. A chain descriptor is checked against the image in the
partition that it names, and that image's own descriptors are next.

The walk keeps an agenda of descriptors that are still to be checked. The descriptors of a newly
entered image go to its front, which is the order of a depth-first traversal. Every partition is
entered at most once, so the walk ends on every graph: each step shortens the agenda, or takes a
partition away from those not entered yet.
-/

namespace VerifiedBoot

/-- The image of a partition with the footer that led to it. -/
structure Record where
  image : Image
  footer : Option Footer
  deriving DecidableEq, Repr

/-- What a verification found. -/
structure Verification where
  root : String
  /-- The images that were read, by partition. -/
  records : List (String × Record)
  /-- In the order in which they were found, none of them twice. -/
  issues : List Issue
  references : List Reference
  deriving DecidableEq, Repr

/-- The verification of a root that nothing is known of. -/
def Verification.empty (root : String) : Verification :=
  ⟨root, [], [], []⟩

/-- A descriptor that is still to be checked. -/
structure Pending where
  /-- The partition whose image holds the descriptor. -/
  holder : String
  index : Nat
  descriptor : Descriptor
  deriving DecidableEq, Repr

/-- The descriptors of an image, all still to be checked. -/
def Pending.ofImage (holder : String) (image : Image) : List Pending :=
  image.descriptors.zipIdx.map fun (d, i) => ⟨holder, i, d⟩

/-- What a walk has found so far. -/
structure Findings where
  /-- The partitions whose image was read, in this order. -/
  loaded : List String
  issues : List Issue
  references : List Reference
  deriving DecidableEq, Repr

namespace Findings

/-- Nothing found. -/
def empty : Findings :=
  ⟨[], [], []⟩

/-- Notes an issue unless it is known. -/
def report (f : Findings) (issue : Issue) : Findings :=
  if issue ∈ f.issues then f else { f with issues := f.issues ++ [issue] }

/-- Notes an issue under a condition. -/
def reportIf (f : Findings) (condition : Bool) (issue : Issue) : Findings :=
  if condition then f.report issue else f

/-- Notes that the image of a partition was read. -/
def load (f : Findings) (name : String) : Findings :=
  if name ∈ f.loaded then f else { f with loaded := f.loaded ++ [name] }

/-- Notes that a descriptor names a partition. -/
def refer (f : Findings) (p : Pending) (target : String) : Findings :=
  let reference : Reference := ⟨target, p.holder, p.index⟩
  if reference ∈ f.references then f else { f with references := f.references ++ [reference] }

end Findings

/-- How to verify: with which cryptography, and in chunks of which size partitions are read. -/
structure Verifier where
  suite : Suite
  chunkSize : Int

namespace Verifier

/-- The size of chunks when none is asked for. -/
def defaultChunkSize : Int :=
  256 * 1024

/-- The last hash descriptor of an image that names a partition, with its index. -/
def lastHash? (image : Image) (name : String) : Option (Nat × HashDescriptor) :=
  image.descriptors.zipIdx.reverse.findSome? fun (d, i) =>
    match d with
    | .hash content => if content.partitionName = name then some (i, content) else none
    | _ => none

/-- Measures a partition for the hash descriptor at an index of the image in `holder`, and reports
a difference. A digest that nobody knows makes the data of `holder` invalid. The result says whether
the descriptor could be checked. -/
def checkHash (v : Verifier) (store : Store) (holder : String) (index : Nat) (d : HashDescriptor)
    (size : Int) (f : Findings) : Except Error (Bool × Findings) := do
  match ← Measurement.take v.suite store v.chunkSize d size with
  | none => return (false, f.report (.invalidPartitionData holder))
  | some m => return (true, f.reportIf (!m.agrees d) (.hashMismatch holder index m.size m.digest))

/-- Checks a hash descriptor. If the partition that it names has a footer, the size in the footer
counts, and the partition's own image has to keep a hash of it, which is checked first. -/
def checkHashDescriptor (v : Verifier) (store : Store) (p : Pending) (d : HashDescriptor)
    (f : Findings) : Except Error Findings := do
  let target := d.partitionName
  let f := f.refer p target
  match (← store.info target).bind (·.footer) with
  | none => return (← v.checkHash store p.holder p.index d d.imageSize f).2
  | some footer =>
    match ← store.image v.suite target with
    | none => return f.report (.invalidPartitionData target)
    | some image =>
      let f := f.load target
      match lastHash? image target with
      | none => return f.report (.invalidPartitionData target)
      | some (index, embedded) =>
        let size := footer.originalImageSize
        let (checked, f) ← v.checkHash store target index embedded size f
        if checked then
          return (← v.checkHash store p.holder p.index d size f).2
        else
          return f

/-- Checks a chain descriptor against the image in the partition that it names. The result says
whether there is an image to go on with. -/
def checkChainDescriptor (v : Verifier) (store : Store) (p : Pending) (d : ChainDescriptor)
    (f : Findings) : Except Error (Bool × Findings) := do
  let target := d.partitionName
  let f := f.refer p target
  match ← store.image v.suite target with
  | none => return (false, f.report (.invalidPartitionData target))
  | some image =>
    let f := f.load target
    let f := f.reportIf (!image.signatureValid) (.invalidSignature target)
    let f := f.reportIf (image.publicKey.isSome && image.publicKey ≠ d.publicKey)
      (.publicKeyMismatch p.holder p.index image.publicKey)
    return (true, f)

/-- Enters a partition: checks that its image is readable, and signed if it embeds a key. The
result holds the descriptors of the image. -/
def enter (v : Verifier) (store : Store) (name : String) (f : Findings) :
    Except Error (List Pending × Findings) := do
  match ← store.image v.suite name with
  | none => return ([], f.report (.invalidPartitionData name))
  | some image =>
    let f := f.load name
    let f := f.reportIf (image.publicKey.isSome && !image.signatureValid) (.invalidSignature name)
    return (Pending.ofImage name image, f)

/-- The partitions not entered yet, without one more. -/
def without (unvisited : List String) (name : String) : List String :=
  unvisited.filter (· ≠ name)

/-- To enter a partition leaves fewer to enter. -/
theorem length_without_lt {unvisited : List String} {name : String} (h : name ∈ unvisited) :
    (without unvisited name).length < unvisited.length :=
  List.length_filter_lt_length_iff_exists.2 ⟨name, h, by simp⟩

/-- Works off an agenda. -/
def walk (v : Verifier) (store : Store) (unvisited : List String) (agenda : List Pending)
    (f : Findings) : Except Error Findings :=
  match agenda with
  | [] => .ok f
  | p :: rest =>
    match p.descriptor with
    | .hash d =>
      match v.checkHashDescriptor store p d f with
      | .error e => .error e
      | .ok f => v.walk store unvisited rest f
    | .chain d =>
      match v.checkChainDescriptor store p d f with
      | .error e => .error e
      | .ok (readable, f) =>
        if readable then
          if d.partitionName ∈ unvisited then
            match v.enter store d.partitionName f with
            | .error e => .error e
            | .ok (next, f) => v.walk store (without unvisited d.partitionName) (next ++ rest) f
          else v.walk store unvisited rest f
        else v.walk store unvisited rest f
    | _ => v.walk store unvisited rest f
termination_by (unvisited.length, agenda.length)
decreasing_by
  all_goals first
    | exact Prod.Lex.right _ (by simp)
    | exact Prod.Lex.left _ _ (length_without_lt (by assumption))

/-- The record of a partition whose image was read. -/
def recordOf? (v : Verifier) (store : Store) (name : String) : Option Record := do
  let image ← (← (store.image v.suite name).toOption)
  let info ← (← (store.info name).toOption)
  return { image, footer := info.footer }

/-- Verifies a root partition and everything that it vouches for. -/
def verify (v : Verifier) (store : Store) (root : String) : Except Error Verification := do
  let (agenda, f) ← v.enter store root Findings.empty
  let f ← v.walk store (without store.names root) agenda f
  return {
    root
    records := f.loaded.filterMap fun name => (v.recordOf? store name).map (name, ·)
    issues := f.issues
    references := f.references }

end Verifier

end VerifiedBoot
