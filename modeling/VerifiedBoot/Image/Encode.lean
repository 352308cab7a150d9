import VerifiedBoot.Descriptor.Codec
import VerifiedBoot.Image.Basic
import VerifiedBoot.Suite

/-!
# Writing images

An image is written unsigned, which drops its key, or signed with an RSA key whose size its
algorithm asks for. The blob is the header, the authentication block with digest and signature, and
the auxiliary block with descriptors, key and metadata. Both blocks are filled up to a multiple of
64 bytes, and the blob to a multiple of the given alignment.

Each operation returns the image that it leaves behind beside its outcome, because one that fails
late has already changed the header.
-/

namespace VerifiedBoot

namespace Image

/-- The blob, filled up with zeros to a multiple of `alignment`, if there is room for them. -/
def align (room : Nat) (blob : Bytes) (alignment : Int) : Except Error Bytes := do
  let size ← Number.roundUp? blob.length alignment
  Bytes.requireRoom room size.toNat
  return Bytes.padTo size.toNat blob

/-- A block of `size` bytes, filled up to a multiple of 64. -/
def blockSize (size : Nat) : Int :=
  Number.roundUp size 64

/-- The header of an unsigned image with `descriptors` bytes of descriptors. -/
def unsignedHeader (header : Header) (descriptors : Nat) : Header :=
  { header with
    algorithmType := 0
    authenticationSize := 0
    auxiliarySize := blockSize descriptors
    hashOffset := 0
    hashSize := 0
    signatureOffset := 0
    signatureSize := 0
    publicKeyOffset := 0
    publicKeySize := 0
    metadataOffset := 0
    metadataSize := 0
    descriptorsOffset := 0
    descriptorsSize := descriptors }

/-- The header of an image that is signed with `algorithm`, with the bytes that descriptors, key
and metadata take. Descriptors come first in the auxiliary block, and the digest in the
authentication block. -/
def signedHeader (header : Header) (algorithm : Algorithm) (descriptors key metadata : Nat) :
    Header :=
  { header with
    auxiliarySize := blockSize (descriptors + key + metadata)
    descriptorsOffset := 0
    descriptorsSize := descriptors
    publicKeyOffset := descriptors
    publicKeySize := key
    metadataOffset := descriptors + key
    metadataSize := metadata
    authenticationSize := blockSize algorithm.authenticationSize
    hashOffset := 0
    hashSize := algorithm.hashSize
    signatureOffset := algorithm.hashSize
    signatureSize := algorithm.signatureSize }

/-- Writes the image without a signature. Its algorithm becomes the one that does not sign, and its
key and metadata are dropped. -/
def encodeUnsigned (suite : Suite) (image : Image) (alignment : Int) :
    Except Error Bytes × Image :=
  match Descriptor.encodeAll image.descriptors with
  | .error e => (.error e, image)
  | .ok descriptors =>
    let header := unsignedHeader image.header descriptors.length
    let written := { image with header, publicKey := none, metadata := some [] }
    let blob := do
      let head ← header.encode
      align suite.room (head ++ Bytes.padTo header.auxiliarySize.toNat descriptors) alignment
    (blob, written)

/-- What is settled before a signed image is laid out: the algorithm, the public key, and the bytes
of key, metadata and descriptors. -/
structure Contents where
  digest : DigestFamily
  keySize : KeySize
  publicKey : PublicKey
  key : Bytes
  metadata : Bytes
  descriptors : Bytes

/-- The contents for signing with a key, which has to suit the image's algorithm. -/
def contents (image : Image) (signer : Rsa.Key) : Except Error Contents := do
  match ← image.algorithm with
  | .unsigned => throw (.refused .unsignedAlgorithm)
  | .signed digest keySize =>
    let publicKey ← PublicKey.ofKey signer
    let key ← publicKey.encode
    if key.length ≠ (Algorithm.signed digest keySize).publicKeySize then
      throw (.refused (.keyWrongSize (Algorithm.signed digest keySize).name))
    let descriptors ← Descriptor.encodeAll image.descriptors
    return { digest, keySize, publicKey, key, metadata := image.metadata.getD [], descriptors }

namespace Contents

/-- The algorithm that the image is signed with. -/
def algorithm (c : Contents) : Algorithm :=
  .signed c.digest c.keySize

/-- The header for the contents. -/
def header (c : Contents) (header : Header) : Header :=
  signedHeader header c.algorithm c.descriptors.length c.key.length c.metadata.length

/-- The auxiliary block. -/
def auxiliary (c : Contents) : Bytes :=
  let data := c.descriptors ++ c.key ++ c.metadata
  Bytes.padTo (blockSize data.length).toNat data

/-- The authentication block for a digest and a signature. -/
def authentication (c : Contents) (digest signature : Bytes) : Bytes :=
  Bytes.padTo (blockSize c.algorithm.authenticationSize).toNat (digest ++ signature)

end Contents

/-- Writes the image with a signature over its header and its auxiliary block, and embeds the
public half of the key. -/
def encodeSigned (suite : Suite) (image : Image) (signer : Rsa.Key) (alignment : Int) :
    Except Error Bytes × Image :=
  match image.contents signer with
  | .error e => (.error e, image)
  | .ok c =>
    let header := c.header image.header
    let laidOut := { image with header }
    let signed := do
      let head ← header.encode
      let message := head ++ c.auxiliary
      let signature ← suite.sign signer c.digest message
      return head ++ c.authentication (suite.digest c.digest message) signature ++ c.auxiliary
    match signed with
    | .error e => (.error e, laidOut)
    | .ok blob => (align suite.room blob alignment, { laidOut with publicKey := some c.publicKey })

/-- Writes the image, signed if there is a key to sign with. -/
def encode (suite : Suite) (image : Image) (signer : Option Rsa.Key) (alignment : Int) :
    Except Error Bytes × Image :=
  match signer with
  | none => image.encodeUnsigned suite alignment
  | some signer => image.encodeSigned suite signer alignment

end Image

end VerifiedBoot
