import VerifiedBoot.Footer
import VerifiedBoot.Header
import VerifiedBoot.Image.Parse

/-!
# Where a partition keeps its image

A partition is a vbmeta image from its first byte on, or it ends in a footer that says where its
image lies. The first case is decided by the first bytes alone and goes before the second. A footer
counts only if the sizes in it fit the partition.
-/

namespace VerifiedBoot

/-- Where the image of a partition lies. -/
structure PartitionInfo where
  /-- The position of the footer, zero if there is none. -/
  footerOffset : Nat
  /-- None if the partition is an image itself. -/
  footer : Option Footer
  deriving DecidableEq, Repr

namespace PartitionInfo

/-- The position of the image. -/
def vbmetaOffset (info : PartitionInfo) : Int :=
  match info.footer with
  | some footer => footer.vbmetaOffset
  | none => 0

/-- How the finding is shown. -/
def toText (info : PartitionInfo) : String :=
  let footer := match info.footer with
    | some footer => footer.toText
    | none => "None"
  s!"AvbPartitionInfo(vbmeta_offset={info.vbmetaOffset}, footer={footer})"

/-- Whether the sizes in a footer fit a partition of `size` bytes. -/
def fits (footer : Footer) (size : Nat) : Bool :=
  footer.originalImageSize ≤ size && footer.vbmetaOffset + footer.vbmetaSize ≤ size

/-- Looks for the image of a partition; none if there is no trace of one. -/
def probe (data : Bytes) : Option PartitionInfo :=
  if data.take 4 = Header.signature then some ⟨0, none⟩
  else if data.length < Footer.size then none
  else
    let position := data.length - Footer.size
    match Footer.decode (data.drop position) with
    | .error _ => none
    | .ok footer => if fits footer data.length then some ⟨position, some footer⟩ else none

/-- The image of a partition; none if there is no trace of one or it is malformed. -/
def readImage (suite : Suite) (data : Bytes) : Except Error (Option Image) :=
  match probe data with
  | none => .ok none
  | some info =>
    match Image.parseAt suite data info.vbmetaOffset.toNat with
    | .ok image => .ok (some image)
    | .error (.malformed _) => .ok none
    | .error e => .error e

end PartitionInfo

end VerifiedBoot
