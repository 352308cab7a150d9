import VerifiedBoot.Descriptor.Basic
import VerifiedBoot.Partition.Store

/-!
# Measuring partitions

A partition is measured for a hash descriptor by the digest of the descriptor's salt and the first
bytes of the partition. The bytes are read in chunks; a partition that is too short is measured over
what is there.
-/

namespace VerifiedBoot

/-- What a hash descriptor has to say of a partition. -/
structure Measurement where
  size : Int
  digest : Bytes
  deriving DecidableEq, Repr

namespace Measurement

/-- Whether a descriptor says so. -/
def agrees (m : Measurement) (d : HashDescriptor) : Bool :=
  m.size = d.imageSize && m.digest = d.digest

/-- The bytes that one read returns when `remaining` are wanted and `available` are there. A
negative chunk size asks for all of them. -/
def readSize (chunkSize remaining : Int) (available : Nat) : Nat :=
  if min chunkSize remaining < 0 then available
  else min (min chunkSize remaining).toNat available

theorem readSize_le (chunkSize remaining : Int) (available : Nat) :
    readSize chunkSize remaining available ≤ available := by
  unfold readSize
  split <;> omega

/-- The chunks of `remaining` bytes from the head of the data, last chunk first, on top of those
read before. It is an error if a read returns nothing, or if the chunk size is a negative number
that is out of range. -/
def readChunks (partition : String) (chunkSize remaining : Int) (data : Bytes)
    (chunks : List Bytes) : Except Error (List Bytes) :=
  if remaining ≤ 0 then .ok chunks
  else if chunkSize < -(Bytes.positionLimit : Int) then .error .sizeTooLarge
  else if readSize chunkSize remaining data.length = 0 then .error (.partitionEnded partition)
  else
    let size := readSize chunkSize remaining data.length
    readChunks partition chunkSize (remaining - size) (data.drop size) (data.take size :: chunks)
termination_by data.length
decreasing_by
  have := readSize_le chunkSize remaining data.length
  simp only [List.length_drop]
  omega

/-- The first `remaining` bytes of a partition, read in chunks. -/
def read (partition : String) (chunkSize remaining : Int) (data : Bytes) : Except Error Bytes := do
  let chunks ← readChunks partition chunkSize remaining data []
  return chunks.reverse.flatten

/-- Measures the partition that a hash descriptor names over `size` bytes; none if nobody knows the
digest that the descriptor names. -/
def take (suite : Suite) (store : Store) (chunkSize : Int) (d : HashDescriptor) (size : Int) :
    Except Error (Option Measurement) :=
  let measure (digest : Bytes → Except Error Bytes) : Except Error (Option Measurement) := do
    let data ← store.open? d.partitionName
    let size := min size data.length
    let payload ← read d.partitionName chunkSize size data
    return some { size, digest := ← digest (d.salt ++ payload) }
  match suite.named d.hashAlgorithm with
  | .unsupported => .ok none
  | .extendable => measure fun _ => .error (.digestUnsized d.hashAlgorithm)
  | .plain digest => measure fun message => .ok (digest message)

end Measurement

end VerifiedBoot
