import VerifiedBoot.Descriptor.Basic
import VerifiedBoot.Header

/-!
# Vbmeta images

An image is a header with descriptors, an embedded public key and free metadata beside the key. It
can be edited and written again. Sizes and offsets in the header are those of the last time that
the image was read or written; writing sets them anew.
-/

namespace VerifiedBoot

/-- What the authentication block held when an image was read. -/
structure Authentication where
  digest : Option Bytes
  signature : Option Bytes
  /-- Whether the digest was that of the image and the signature verified with its key. -/
  signatureValid : Bool
  deriving DecidableEq, Repr

/-- A vbmeta image. -/
structure Image where
  header : Header
  descriptors : List Descriptor
  publicKey : Option PublicKey
  /-- Free bytes that are stored beside the public key. None counts as empty. -/
  metadata : Option Bytes
  /-- None for an image that was not read; edits and writing leave it as it is. -/
  authentication : Option Authentication
  deriving DecidableEq, Repr

namespace Image

/-- The image without descriptors and key. -/
def empty : Image where
  header := Header.empty
  descriptors := []
  publicKey := none
  metadata := some []
  authentication := none

/-- The algorithm that the header names. -/
def algorithm (image : Image) : Except Error Algorithm :=
  image.header.algorithm

/-- Whether the image was read with a signature that verified. -/
def signatureValid (image : Image) : Bool :=
  match image.authentication with
  | some authentication => authentication.signatureValid
  | none => false

/-- The position that an index counts from the start, or from the end if it is negative. -/
def position? (count : Nat) (index : Int) : Option Nat :=
  let position := if index < 0 then index + count else index
  if 0 ≤ position ∧ position < count then some position.toNat else none

/-- The image with a record inserted before the one at an index. An index before the start or past
the end stands for the start or the end, as long as it is in the range of positions. -/
def insert (image : Image) (index : Int) (d : Descriptor) : Except Error Image :=
  let count : Int := image.descriptors.length
  let position := if index < 0 then max (index + count) 0 else min index count
  if Bytes.inRange index then
    .ok { image with descriptors := image.descriptors.insertIdx position.toNat d }
  else .error .sizeTooLarge

/-- The image without the record at an index. -/
def remove (image : Image) (index : Int) : Except Error Image :=
  match position? image.descriptors.length index with
  | some position => .ok { image with descriptors := image.descriptors.eraseIdx position }
  | none => .error (.indexRange index)

/-- The record at an index. -/
def descriptorAt (image : Image) (index : Int) : Except Error Descriptor :=
  match (position? image.descriptors.length index).bind (image.descriptors[·]?) with
  | some d => .ok d
  | none => .error (.indexRange index)

/-- The image with the record at an index replaced; an index that is out of range changes
nothing. -/
def setDescriptor (image : Image) (index : Int) (d : Descriptor) : Image :=
  match position? image.descriptors.length index with
  | some position => { image with descriptors := image.descriptors.set position d }
  | none => image

end Image

end VerifiedBoot
