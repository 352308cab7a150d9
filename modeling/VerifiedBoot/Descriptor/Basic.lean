import VerifiedBoot.Descriptor.Kind
import VerifiedBoot.PublicKey

/-!
# Descriptors

A vbmeta image carries a list of descriptors: properties, the hash tree of a partition, the hash of
a partition, parts of the kernel command line, and the key that another partition's image has to be
signed with. Records with any other tag are carried along as they are.
-/

namespace VerifiedBoot

/-- A key with a value, both free bytes. -/
structure PropertyDescriptor where
  key : Bytes
  value : Bytes
  deriving DecidableEq, Repr

/-- The hash tree over a partition. The tree itself is never looked at. -/
structure HashtreeDescriptor where
  dmVerityVersion : Int
  imageSize : Int
  treeOffset : Int
  treeSize : Int
  dataBlockSize : Int
  hashBlockSize : Int
  fecNumRoots : Int
  fecOffset : Int
  fecSize : Int
  hashAlgorithm : String
  partitionName : String
  salt : Bytes
  rootDigest : Bytes
  flags : Int
  reserved : Bytes
  deriving DecidableEq, Repr

/-- The digest of a salt followed by the first bytes of a partition. -/
structure HashDescriptor where
  imageSize : Int
  hashAlgorithm : String
  partitionName : String
  salt : Bytes
  digest : Bytes
  flags : Int
  reserved : Bytes
  deriving DecidableEq, Repr

/-- A part of the kernel command line. -/
structure CmdlineDescriptor where
  flags : Int
  kernelCmdline : String
  deriving DecidableEq, Repr

/-- The public key of the image in another partition. -/
structure ChainDescriptor where
  rollbackIndexLocation : Int
  partitionName : String
  /-- None for an empty key blob. -/
  publicKey : Option PublicKey
  flags : Int
  reserved : Bytes
  deriving DecidableEq, Repr

/-- A record with a tag that has no layout of its own. -/
structure UnknownDescriptor where
  /-- None for a record that was never given a tag. -/
  tag : Option Int
  data : Bytes
  deriving DecidableEq, Repr

/-- One record of a descriptor list. -/
inductive Descriptor where
  | property (content : PropertyDescriptor)
  | hashtree (content : HashtreeDescriptor)
  | hash (content : HashDescriptor)
  | cmdline (content : CmdlineDescriptor)
  | chain (content : ChainDescriptor)
  | unknown (content : UnknownDescriptor)
  deriving DecidableEq, Repr

namespace Descriptor

/-- The kind of a record. -/
def kind : Descriptor → DescriptorKind
  | property _ => .property
  | hashtree _ => .hashtree
  | hash _ => .hash
  | cmdline _ => .cmdline
  | chain _ => .chain
  | unknown _ => .unknown

/-- The record of a kind with all numbers zero and all texts and blobs empty. -/
def empty : DescriptorKind → Descriptor
  | .property => property ⟨[], []⟩
  | .hashtree => hashtree ⟨0, 0, 0, 0, 0, 0, 0, 0, 0, "", "", [], [], 0, Bytes.zeros 60⟩
  | .hash => hash ⟨0, "", "", [], [], 0, Bytes.zeros 60⟩
  | .cmdline => cmdline ⟨0, ""⟩
  | .chain => chain ⟨0, "", none, 0, Bytes.zeros 60⟩
  | .unknown => unknown ⟨none, []⟩

/-- The other partition that a record vouches for, if any. -/
def target? : Descriptor → Option String
  | hash content => some content.partitionName
  | chain content => some content.partitionName
  | _ => none

end Descriptor

end VerifiedBoot
