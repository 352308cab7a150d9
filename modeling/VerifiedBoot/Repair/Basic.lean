import VerifiedBoot.Repair.Request
import VerifiedBoot.Walk.Basic

/-!
# Repairing a chain of trust

A repair takes the issues of a verification from a queue and mends the images that they name. To
change an image that embeds a key is to break its signature, so the image joins the queue again. An
image whose private key is not at hand gets a new key, and then every chain descriptor that names it
is stale and joins the queue too. When the queue is empty, the changed images are the requests.

An issue joins the queue only if it is not waiting there already.

Records are values here: to change the image of one partition leaves the images of all others as
they are. A verification reads an image of its own for every partition. Records that somebody put
together from one image object under two names, so that a change to one shows in the other, are
outside of this description.
-/

namespace VerifiedBoot

namespace Repair

/-- What a repair may use: keys to sign with, and a source of new keys by size. -/
structure Means where
  keyring : Keyring
  generate : Nat → Except Error KeyPair

/-- A repair in progress. -/
structure State where
  /-- The images, by partition; each belongs to its own partition only. -/
  records : List (String × Record)
  references : List Reference
  /-- The issues that wait. -/
  queue : List Issue
  /-- The changed partitions, in the order in which they were first changed, with the pair that
  signs each. -/
  changed : List (String × Option KeyPair)
  /-- The pairs that were generated, by size; one for each size. -/
  generated : List (Nat × KeyPair)

/-- The number of issues that a repair handles when no other limit is set. -/
def defaultLimit : Int :=
  1000

namespace State

/-- Puts an issue into the queue unless it waits there. -/
def add (s : State) (issue : Issue) : State :=
  if issue ∈ s.queue then s else { s with queue := s.queue ++ [issue] }

/-- The state at the start of the repair of what a verification found. -/
def ofVerification (found : Verification) : State :=
  found.issues.foldl add ⟨found.records, found.references, [], [], []⟩

/-- The record of a partition. -/
def record (s : State) (name : String) : Except Error Record :=
  match s.records.lookup name with
  | some record => .ok record
  | none => .error (.unrepairable (.unverified name))

/-- Replaces the image of a partition. -/
def setImage (s : State) (name : String) (record : Record) (image : Image) : State :=
  { s with records := Entries.assign s.records name { record with image } }

/-- Notes that a partition has to be written with a pair. -/
def setChanged (s : State) (name : String) (pair : Option KeyPair) : State :=
  { s with changed := Entries.assign s.changed name pair }

/-- Notes a change to an image that keeps its key. The pair that was to sign it still does; if
there is none and the image embeds a key, its signature is an issue. -/
def touch (s : State) (name : String) : Except Error State := do
  let record ← s.record name
  match s.changed.lookup name with
  | some (some pair) => return s.setChanged name (some pair)
  | _ =>
    let s := if record.image.publicKey.isSome then s.add (.invalidSignature name) else s
    return s.setChanged name none

/-- Notes that a pair signs the image of a partition. The algorithm follows the size of the key. -/
def signWith (s : State) (name : String) (pair : KeyPair) : Except Error State := do
  let record ← s.record name
  let algorithm ← record.image.algorithm
  if algorithm.keyBits = pair.bits then
    return s.setChanged name (some pair)
  else
    let algorithm ← algorithm.forKeyBits pair.bits
    let header := { record.image.header with algorithmType := algorithm.code }
    let s := s.setImage name record { record.image with header }
    return s.setChanged name (some pair)

/-- The pair at hand for a public key: from the keyring, or generated before. -/
def findPair (s : State) (means : Means) (key : Option PublicKey) : Option KeyPair :=
  match key with
  | none => none
  | some key =>
    means.keyring.find? key <|>
      (s.generated.lookup key.bits).filter fun pair => pair.publicKey = key

/-- The generated pair of a size, which is made when it is first asked for. -/
def generatedPair (s : State) (means : Means) (bits : Nat) : Except Error (KeyPair × State) :=
  match s.generated.lookup bits with
  | some pair => .ok (pair, s)
  | none => do
    let pair ← means.generate bits
    return (pair, { s with generated := s.generated ++ [(bits, pair)] })

/-- The chain descriptor that a reference stands for, if it stands for one. -/
def chainAt (s : State) (reference : Reference) : Except Error (Option ChainDescriptor) :=
  match s.records.lookup reference.holder with
  | none => .ok none
  | some record =>
    if (record.image.descriptors.length : Int) ≤ reference.index then .ok none
    else do
      match ← record.image.descriptorAt reference.index with
      | .chain d => return some d
      | _ => return none

/-- The references to a partition from chain descriptors of other partitions, in order, each with
its descriptor. -/
def chainReferences (s : State) (name : String) :
    Except Error (List (Reference × ChainDescriptor)) := do
  let candidates := s.references.filter fun r => r.partition = name && r.holder ≠ name
  let found ← candidates.mapM fun r => do return (← s.chainAt r).map (r, ·)
  return (found.filterMap id).mergeSort fun a b => a.1.le b.1

/-- The size of a new key in place of the one that a chain descriptor has. -/
def freshBits (declared : ChainDescriptor) : Nat :=
  match declared.publicKey with
  | some key => key.bits
  | none => 2048

/-- Gives the image of a partition a new key. Every chain descriptor of another partition that
names the partition is stale then; there has to be one. -/
def rekey (s : State) (means : Means) (name : String) : Except Error State := do
  match ← s.chainReferences name with
  | [] => throw (.unrepairable (.unsignable name))
  | (reference, declared) :: others =>
    let (pair, s) ← s.generatedPair means (freshBits declared)
    let record ← s.record name
    let s := s.setImage name record { record.image with publicKey := some pair.publicKey }
    let s ← s.signWith name pair
    let references := reference :: others.map (·.1)
    return references.foldl
      (fun s r => s.add (.publicKeyMismatch r.holder r.index (some pair.publicKey))) s

/-- Mends a signature: signs with the pair at hand, or gives the image a new key. -/
def mendSignature (s : State) (means : Means) (name : String) : Except Error State := do
  let record ← s.record name
  match s.findPair means record.image.publicKey with
  | some pair => s.signWith name pair
  | none => s.rekey means name

/-- The record of a partition and its descriptor at an index, which has to be of a kind. -/
def descriptorOf (s : State) (name : String) (index : Int) (kind : DescriptorKind) :
    Except Error (Record × Descriptor) := do
  let record ← s.record name
  let wrong : Error := .unrepairable (.wrongDescriptor index name kind)
  if (record.image.descriptors.length : Int) ≤ index then
    throw wrong
  let d ← record.image.descriptorAt index
  if d.kind ≠ kind then
    throw wrong
  return (record, d)

/-- Mends a hash descriptor: it gets the size and the digest that were measured. -/
def mendHash (s : State) (name : String) (index size : Int) (digest : Bytes) :
    Except Error State := do
  match ← s.descriptorOf name index .hash with
  | (record, .hash d) =>
    let mended := record.image.setDescriptor index (.hash { d with imageSize := size, digest })
    (s.setImage name record mended).touch name
  | _ => return s

/-- Mends a chain descriptor: it gets the key that the chained image embeds. -/
def mendChain (s : State) (name : String) (index : Int) (key : Option PublicKey) :
    Except Error State := do
  match ← s.descriptorOf name index .chain with
  | (record, .chain d) =>
    let mended := record.image.setDescriptor index (.chain { d with publicKey := key })
    (s.setImage name record mended).touch name
  | _ => return s

/-- Mends one issue. -/
def handle (s : State) (means : Means) : Issue → Except Error State
  | .hashMismatch name index size digest => s.mendHash name index size digest
  | .publicKeyMismatch name index key => s.mendChain name index key
  | .invalidSignature name => s.mendSignature means name
  | .invalidPartitionData name => .error (.unrepairable (.invalidData name))
  | .other label _ => .error (.unrepairable (.unknownIssue label))

/-- Works off the queue. It is an error if issues are left to handle after `limit` of them; the
first one past the limit is still tried. -/
def drain (means : Means) : (limit : Nat) → State → Except Error State
  | limit, s =>
    match s.queue with
    | [] => .ok s
    | issue :: rest =>
      match ({ s with queue := rest }).handle means issue with
      | .error e => .error e
      | .ok s =>
        match limit with
        | 0 => .error (.unrepairable .tooManySteps)
        | limit + 1 => drain means limit s

/-- The request for a changed partition. An image that embeds a key needs a pair to sign it. -/
def request (s : State) (name : String) (pair : Option KeyPair) : Except Error Request := do
  let record ← s.record name
  if pair.isNone && record.image.publicKey.isSome then
    throw (.unrepairable (.noSigningKey name))
  return ⟨name, record.image, record.footer, pair⟩

end State

/-- Repairs what a verification found: the images that have to be written, in the order in which
they were first changed. At most `limit` issues are handled. -/
def rebuild (means : Means) (found : Verification) (limit : Int) : Except Error (List Request) := do
  let s ← (State.ofVerification found).drain means limit.toNat
  s.changed.mapM fun (name, pair) => s.request name pair

end Repair

end VerifiedBoot
