import VerifiedBoot.PublicKey
import VerifiedBoot.Text.Quoted

/-!
# Findings

What is wrong with a chain of trust, and which descriptors refer to which partitions.
-/

namespace VerifiedBoot

/-- Something that keeps a chain of trust from being sound. -/
inductive Issue where
  /-- The partition has no readable image where it needs one, or names a digest that nobody
  knows. -/
  | invalidPartitionData (partition : String)
  /-- The image does not carry a valid signature. -/
  | invalidSignature (partition : String)
  /-- A hash descriptor is stale. Size and digest are what it has to say for the partition that it
  refers to. -/
  | hashMismatch (partition : String) (index size : Int) (digest : Bytes)
  /-- A chain descriptor has a key other than the one that the chained image embeds. -/
  | publicKeyMismatch (partition : String) (index : Int) (key : Option PublicKey)
  /-- A finding of a kind that only its reporter knows. The serial number tells it apart from
  others of the same label. -/
  | other (label : String) (serial : Nat)
  deriving DecidableEq, Repr

namespace Issue

/-- The partition whose image has to change to mend the issue. -/
def partition? : Issue → Option String
  | invalidPartitionData partition | invalidSignature partition
  | hashMismatch partition .. | publicKeyMismatch partition .. => some partition
  | other .. => none

/-- How an issue is shown. -/
def toText : Issue → Except Error String
  | invalidPartitionData partition =>
    .ok s!"InvalidPartitionData(partition_name={Text.quote partition})"
  | invalidSignature partition =>
    .ok s!"InvalidSignature(vbmeta_partition={Text.quote partition})"
  | hashMismatch partition index size digest =>
    .ok s!"HashMismatch({partition}[{index}], size={size}, digest={Bytes.hex digest})"
  | publicKeyMismatch partition index key => do
    let shown ← match key with
      | some key => key.fingerprint
      | none => pure "None"
    return s!"PublicKeyMismatch({partition}[{index}], key={shown})"
  | other label _ => .ok label

end Issue

/-- An edge of the trust graph: descriptor `index` of the image in `holder` names `partition`. -/
structure Reference where
  partition : String
  holder : String
  index : Int
  deriving DecidableEq, Repr

namespace Reference

/-- The order by partition, then holder, then index. -/
def le (a b : Reference) : Bool :=
  if a.partition ≠ b.partition then a.partition < b.partition
  else if a.holder ≠ b.holder then a.holder < b.holder
  else a.index ≤ b.index

end Reference

end VerifiedBoot
