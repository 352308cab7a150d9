import VerifiedBoot.Image.Encode
import VerifiedBoot.KeyPair
import VerifiedBoot.Footer

/-!
# Writing repaired images back

A request holds a repaired image that waits to be written to its partition, with the key to sign it
with. An image without a footer is written from the first byte of the partition on. An image with a
footer goes behind the partition's own image, and the footer, which stays the last 64 bytes, is
updated.

Each operation returns the request and the file that it leaves behind beside its outcome, because
one that fails may have changed both.
-/

namespace VerifiedBoot

/-- A repaired image that waits to be written. -/
structure Request where
  partition : String
  image : Image
  footer : Option Footer
  /-- None to write the image unsigned. -/
  signer : Option KeyPair
  deriving DecidableEq, Repr

/-- What is left after an attempt to write: the request and the file. -/
structure Written where
  request : Request
  file : Bytes

namespace Request

/-- The multiple to which blobs are filled up when none is asked for. -/
def defaultAlignment : Int :=
  4096

/-- The bytes that are copied at a time. -/
def copySize : Nat :=
  256 * 1024

/-- How a request is shown. -/
def toText (request : Request) : String :=
  let flag (b : Bool) := if b then "True" else "False"
  s!"VbmetaRebuildRequest({request.partition}, footer={flag request.footer.isSome}, " ++
    s!"signed={flag request.signer.isSome})"

/-- The blob of the image, and the request that is left. -/
def encode (suite : Suite) (request : Request) (alignment : Int) : Except Error Bytes × Request :=
  let (blob, image) := request.image.encode suite (request.signer.map (·.rsa)) alignment
  (blob, { request with image })

/-- The footer for a blob behind the partition's own image. -/
def placeBlob (footer : Footer) (blob : Bytes) : Footer :=
  { footer with vbmetaOffset := footer.originalImageSize, vbmetaSize := blob.length }

/-- Writes blob and footer to a file, for a partition of `size` bytes. -/
def writeFooted (suite : Suite) (request : Request) (footer : Footer) (file : Bytes) (size : Nat)
    (alignment : Int) : Except Error Unit × Written :=
  match request.encode suite alignment with
  | (.error e, request) => (.error e, ⟨request, file⟩)
  | (.ok blob, request) =>
    let footerOffset : Int := (size : Int) - Footer.size
    if footerOffset < footer.originalImageSize + blob.length then
      (.error (.refused (.noRoom blob.length request.partition)), ⟨request, file⟩)
    else
      let footer := placeBlob footer blob
      let request := { request with footer := some footer }
      match Bytes.position footer.vbmetaOffset with
      | .error e => (.error e, ⟨request, file⟩)
      | .ok position =>
        let file := Bytes.overwrite file position blob
        match footer.encode with
        | .error e => (.error e, ⟨request, file⟩)
        | .ok encoded => (.ok (), ⟨request, Bytes.overwrite file footerOffset.toNat encoded⟩)

/-- Writes the blob of an image without a footer to the head of a file. -/
def writeBare (suite : Suite) (request : Request) (file : Bytes) (alignment : Int) :
    Except Error Unit × Written :=
  match request.encode suite alignment with
  | (.error e, request) => (.error e, ⟨request, file⟩)
  | (.ok blob, request) => (.ok (), ⟨request, Bytes.overwrite file 0 blob⟩)

/-- Writes the image into the partition itself. -/
def applyInPlace (suite : Suite) (request : Request) (file : Bytes) (alignment : Int) :
    Except Error Unit × Written :=
  match request.footer with
  | none => request.writeBare suite file alignment
  | some footer => request.writeFooted suite footer file file.length alignment

/-- Copies `remaining` bytes of a source to a file from a position on, and says whether there were
so many. What was copied before the source ended stays. -/
def copyPayload (remaining : Nat) (source : Bytes) (position : Nat) (file : Bytes) :
    Except Error Unit × Bytes :=
  if remaining = 0 then (.ok (), file)
  else
    let size := min copySize remaining
    let chunk := source.take size
    if chunk.length < size then (.error (.streamEnded (size - chunk.length : Nat)), file)
    else copyPayload (remaining - size) (source.drop size) (position + size)
      (Bytes.overwrite file position chunk)
termination_by remaining
decreasing_by
  have : 0 < copySize := by decide
  show remaining - min copySize remaining < remaining
  omega

/-- Writes a repaired copy of the partition `source` to a file. If there is a footer, the
partition's own image is copied first, and the footer keeps its position. -/
def applyToCopy (suite : Suite) (request : Request) (source file : Bytes) (alignment : Int) :
    Except Error Unit × Written :=
  match request.footer with
  | none => request.writeBare suite file alignment
  | some footer =>
    match copyPayload footer.originalImageSize.toNat source 0 file with
    | (.error e, file) => (.error e, ⟨request, file⟩)
    | (.ok (), file) => request.writeFooted suite footer file source.length alignment

end Request

end VerifiedBoot
