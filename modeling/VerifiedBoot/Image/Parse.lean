import VerifiedBoot.Bytes.Cursor
import VerifiedBoot.Descriptor.Codec
import VerifiedBoot.Image.Basic
import VerifiedBoot.Suite

/-!
# Reading images

An image is read from the place of a file where its header starts; what follows the two blocks is
not looked at. The header's offsets and sizes are taken at their word only after the blocks they
point into were found to hold them.

The signature counts as valid if the digest in the authentication block is that of the header and
the auxiliary block, and the signature over it verifies with the embedded key.
-/

namespace VerifiedBoot

namespace Image

/-- The slice of a block that the header declares. -/
def sliceBlock (block : Bytes) (offset size : Int) (slice : String) : Except Error Bytes :=
  if block.length < offset + size then .error (.malformed (.outsideBlock slice))
  else .ok (Bytes.slice block offset.toNat size.toNat)

/-- A slice of a block that is absent if its size is zero. -/
def sliceBlock? (block : Bytes) (offset size : Int) (slice : String) :
    Except Error (Option Bytes) :=
  if size = 0 then .ok none else some <$> sliceBlock block offset size slice

/-- Whether digest and signature are those of a message. -/
def checkSignature (suite : Suite) (algorithm : Algorithm) (message : Bytes)
    (digest signature : Option Bytes) (key : Option PublicKey) : Bool :=
  match algorithm, digest, signature, key with
  | .signed family _, some digest, some signature, some key =>
    digest = suite.digest family message && suite.verify key family message signature
  | _, _, _, _ => false

/-- A header with its bytes and the two blocks that it declares. -/
structure Blocks where
  head : Bytes
  header : Header
  authentication : Bytes
  auxiliary : Bytes

/-- Reads the header and the two blocks, and moves past them. -/
def readBlocks (c : Cursor) : Except Error (Blocks × Cursor) := do
  let (head, c) ← match c.readFully Header.size with
    | .ok read => .ok read
    | .error (.streamEnded _) => .error (.malformed .headerLength)
    | .error e => .error e
  let header ← Header.decode head
  let _ ← header.algorithm
  if c.left < header.authenticationSize + header.auxiliarySize then
    throw (.malformed .blocksPastEnd)
  let (authentication, c) ← c.readFully header.authenticationSize
  let (auxiliary, c) ← c.readFully header.auxiliarySize
  return ({ head, header, authentication, auxiliary }, c)

/-- The key that the auxiliary block embeds, if any. -/
def embeddedKey (b : Blocks) : Except Error (Option PublicKey) := do
  match ← sliceBlock? b.auxiliary b.header.publicKeyOffset b.header.publicKeySize "Public key" with
  | none => return none
  | some blob => return some (← PublicKey.decode blob)

/-- The image that header and blocks make up. -/
def ofBlocks (suite : Suite) (b : Blocks) : Except Error Image := do
  let header := b.header
  let algorithm ← header.algorithm
  let publicKey ← embeddedKey b
  let metadata ←
    sliceBlock b.auxiliary header.metadataOffset header.metadataSize "Public key metadata"
  let digest ← sliceBlock? b.authentication header.hashOffset header.hashSize "Hash"
  let signature ←
    sliceBlock? b.authentication header.signatureOffset header.signatureSize "Signature"
  let descriptors ← Descriptor.decodeAll
    (← sliceBlock b.auxiliary header.descriptorsOffset header.descriptorsSize "Descriptors")
  let signatureValid :=
    checkSignature suite algorithm (b.head ++ b.auxiliary) digest signature publicKey
  return {
    header
    descriptors
    publicKey
    metadata := some metadata
    authentication := some { digest, signature, signatureValid } }

/-- Reads the image that a cursor stands in front of, and moves past its blocks. -/
def read (suite : Suite) (c : Cursor) : Except Error (Image × Cursor) := do
  let (b, c) ← readBlocks c
  return (← ofBlocks suite b, c)

/-- Reads the image at a position of a file, which may lie past the end. -/
def parseAt (suite : Suite) (file : Bytes) (position : Nat) : Except Error Image :=
  Prod.fst <$> read suite ⟨file, position⟩

/-- Reads the image at the head of the data. -/
def parse (suite : Suite) (data : Bytes) : Except Error Image :=
  parseAt suite data 0

end Image

end VerifiedBoot
