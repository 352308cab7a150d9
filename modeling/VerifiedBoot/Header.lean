import VerifiedBoot.Algorithm
import VerifiedBoot.Bytes.Layout

/-!
# Headers of vbmeta images

The first 256 bytes of a vbmeta image. They give the sizes of the two blocks that follow, and where
in the blocks the digest, the signature, the public key, its metadata and the descriptors lie.
-/

namespace VerifiedBoot

/-- The header of a vbmeta image. -/
structure Header where
  magic : Bytes
  majorVersion : Int
  minorVersion : Int
  authenticationSize : Int
  auxiliarySize : Int
  algorithmType : Int
  hashOffset : Int
  hashSize : Int
  signatureOffset : Int
  signatureSize : Int
  publicKeyOffset : Int
  publicKeySize : Int
  metadataOffset : Int
  metadataSize : Int
  descriptorsOffset : Int
  descriptorsSize : Int
  rollbackIndex : Int
  flags : Int
  rollbackIndexLocation : Int
  releaseString : Bytes
  reserved : Bytes
  deriving DecidableEq, Repr

namespace Header

/-- The bytes that a vbmeta image begins with. -/
def signature : Bytes :=
  [0x41, 0x56, 0x42, 0x30]

/-- The bytes of a header. -/
def size : Nat :=
  256

/-- The fields of a header. -/
def layout : Layout :=
  [.block 4, word32, word32, word64, word64, word32, word64, word64, word64, word64, word64,
    word64, word64, word64, word64, word64, word64, word32, word32, .block 48, .block 80]

/-- The header of an empty unsigned image. -/
def empty : Header where
  magic := signature
  majorVersion := 1
  minorVersion := 0
  authenticationSize := 0
  auxiliarySize := 0
  algorithmType := 0
  hashOffset := 0
  hashSize := 0
  signatureOffset := 0
  signatureSize := 0
  publicKeyOffset := 0
  publicKeySize := 0
  metadataOffset := 0
  metadataSize := 0
  descriptorsOffset := 0
  descriptorsSize := 0
  rollbackIndex := 0
  flags := 0
  rollbackIndexLocation := 0
  releaseString := Bytes.fit 48 (Bytes.ofString "avbchain 1.0.0")
  reserved := Bytes.zeros 80

/-- The algorithm that the header names. -/
def algorithm (header : Header) : Except Error Algorithm :=
  Algorithm.ofCode header.algorithmType

/-- Raises the required minor version to at least `minor`. -/
def bump (header : Header) (minor : Int) : Header :=
  { header with minorVersion := max header.minorVersion minor }

/-- The twelve sizes and offsets, with their names in messages, in the order in which they are
checked. -/
def extents (header : Header) : List (String × Int) := [
  ("authentication_data_block_size", header.authenticationSize),
  ("auxiliary_data_block_size", header.auxiliarySize),
  ("hash_offset", header.hashOffset),
  ("hash_size", header.hashSize),
  ("signature_offset", header.signatureOffset),
  ("signature_size", header.signatureSize),
  ("public_key_offset", header.publicKeyOffset),
  ("public_key_size", header.publicKeySize),
  ("public_key_metadata_offset", header.metadataOffset),
  ("public_key_metadata_size", header.metadataSize),
  ("descriptors_offset", header.descriptorsOffset),
  ("descriptors_size", header.descriptorsSize)]

/-- The values of the fields in order. -/
def toRow (header : Header) : layout.Row :=
  (header.magic, header.majorVersion, header.minorVersion, header.authenticationSize,
    header.auxiliarySize, header.algorithmType, header.hashOffset, header.hashSize,
    header.signatureOffset, header.signatureSize, header.publicKeyOffset, header.publicKeySize,
    header.metadataOffset, header.metadataSize, header.descriptorsOffset, header.descriptorsSize,
    header.rollbackIndex, header.flags, header.rollbackIndexLocation, header.releaseString,
    header.reserved, ())

/-- The header with the given values of its fields. -/
def ofRow (row : layout.Row) : Header :=
  let (magic, majorVersion, minorVersion, authenticationSize, auxiliarySize, algorithmType,
    hashOffset, hashSize, signatureOffset, signatureSize, publicKeyOffset, publicKeySize,
    metadataOffset, metadataSize, descriptorsOffset, descriptorsSize, rollbackIndex, flags,
    rollbackIndexLocation, releaseString, reserved, _) := row
  { magic, majorVersion, minorVersion, authenticationSize, auxiliarySize, algorithmType,
    hashOffset, hashSize, signatureOffset, signatureSize, publicKeyOffset, publicKeySize,
    metadataOffset, metadataSize, descriptorsOffset, descriptorsSize, rollbackIndex, flags,
    rollbackIndexLocation, releaseString, reserved }

/-- The bytes of a header. -/
def encode (header : Header) : Except Error Bytes :=
  layout.pack header.toRow

/-- The header at the head of the data. -/
def decode (data : Bytes) : Except Error Header := do
  let header := ofRow (← layout.unpack data)
  if header.magic ≠ signature then
    throw (.malformed .headerMagic)
  checkExtents header.extents
  let _ ← header.algorithm
  return header

end Header

end VerifiedBoot
