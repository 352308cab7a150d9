import Mathlib.Tactic.Common
import VerifiedBoot.Descriptor.Codec
import VerifiedBoot.Proofs.PublicKey

/-!
# Descriptors that their bytes mean

Numbers, texts and blobs of a descriptor are unbounded, and the fields that they are written to are
not. `Descriptor.InRange` says which descriptors fit: numbers are in the range of their fields,
lengths and sizes are below the sign bit that readers check, and what has a fixed width has it.
-/

namespace VerifiedBoot

/-- Whether a number has no sign and at most `bits` binary digits. -/
def FitsIn (bits : Nat) (n : Int) : Prop :=
  0 ≤ n ∧ n < (1 <<< bits : Nat)

instance (bits : Nat) (n : Int) : Decidable (FitsIn bits n) :=
  inferInstanceAs (Decidable (_ ∧ _))

theorem FitsIn.mono {m n : Nat} {value : Int} (h : FitsIn m value) (hmn : m ≤ n) :
    FitsIn n value := by
  refine ⟨h.1, Int.lt_of_lt_of_le h.2 (Int.ofNat_le.2 ?_)⟩
  rw [Nat.one_shiftLeft, Nat.one_shiftLeft]
  exact Nat.pow_le_pow_right (by decide) hmn

/-- Whether a length is below the sign bit of a 32-bit field. -/
def ShortLength (data : Bytes) : Prop :=
  data.length < 1 <<< 31

instance (data : Bytes) : Decidable (ShortLength data) :=
  inferInstanceAs (Decidable (_ < _))

/-- Whether the name of a hash algorithm fits its field and does not hold the byte that ends it. -/
def HashNameInRange (name : String) : Prop :=
  (Bytes.ofString name).length ≤ 32 ∧ 0 ∉ Bytes.ofString name

instance (name : String) : Decidable (HashNameInRange name) :=
  inferInstanceAs (Decidable (_ ∧ _))

/-- Whether the bytes that follow the preamble are fewer than the sign bit says. -/
structure PropertyDescriptor.InRange (d : PropertyDescriptor) : Prop where
  following : Number.roundUp (16 + (d.key.length + d.value.length + 2) : Nat) 8 < (1 <<< 63 : Nat)

/-- Whether the parts of a hash tree fit their fields. -/
structure HashtreeDescriptor.InRange (d : HashtreeDescriptor) : Prop where
  dmVerityVersion : FitsIn 32 d.dmVerityVersion
  imageSize : FitsIn 63 d.imageSize
  treeOffset : FitsIn 63 d.treeOffset
  treeSize : FitsIn 63 d.treeSize
  dataBlockSize : FitsIn 32 d.dataBlockSize
  hashBlockSize : FitsIn 32 d.hashBlockSize
  fecNumRoots : FitsIn 32 d.fecNumRoots
  fecOffset : FitsIn 63 d.fecOffset
  fecSize : FitsIn 63 d.fecSize
  hashAlgorithm : HashNameInRange d.hashAlgorithm
  partitionName : ShortLength (Bytes.ofString d.partitionName)
  salt : ShortLength d.salt
  rootDigest : ShortLength d.rootDigest
  flags : FitsIn 32 d.flags
  reserved : d.reserved.length = 60

/-- Whether the parts of a hash fit their fields. -/
structure HashDescriptor.InRange (d : HashDescriptor) : Prop where
  imageSize : FitsIn 63 d.imageSize
  hashAlgorithm : HashNameInRange d.hashAlgorithm
  partitionName : ShortLength (Bytes.ofString d.partitionName)
  salt : ShortLength d.salt
  digest : ShortLength d.digest
  flags : FitsIn 32 d.flags
  reserved : d.reserved.length = 60

/-- Whether the parts of a kernel command line fit their fields. -/
structure CmdlineDescriptor.InRange (d : CmdlineDescriptor) : Prop where
  flags : FitsIn 32 d.flags
  kernelCmdline : ShortLength (Bytes.ofString d.kernelCmdline)

/-- Whether the parts of a chained partition fit their fields. -/
structure ChainDescriptor.InRange (d : ChainDescriptor) : Prop where
  rollbackIndexLocation : FitsIn 32 d.rollbackIndexLocation
  partitionName : ShortLength (Bytes.ofString d.partitionName)
  publicKey : ∀ key, d.publicKey = some key → key.InRange
  flags : FitsIn 32 d.flags
  reserved : d.reserved.length = 60

/-- Whether a record has a tag without a layout of its own and fits its fields. -/
structure UnknownDescriptor.InRange (d : UnknownDescriptor) : Prop where
  tag : ∃ tag, d.tag = some tag ∧ 5 ≤ tag ∧ FitsIn 64 tag
  data : d.data.length < 1 <<< 63

namespace Descriptor

/-- Whether the parts of a record fit their fields. -/
def InRange : Descriptor → Prop
  | property d => d.InRange
  | hashtree d => d.InRange
  | hash d => d.InRange
  | cmdline d => d.InRange
  | chain d => d.InRange
  | unknown d => d.InRange

end Descriptor

end VerifiedBoot
