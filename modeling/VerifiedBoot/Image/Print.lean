import VerifiedBoot.Descriptor.Print
import VerifiedBoot.Image.Basic

/-!
# Images as text

The fields of an image that a reader asks for, one a line, and then its descriptors.
-/

namespace VerifiedBoot

namespace Image

/-- The release string without the zeros that fill its field. -/
def releaseText (header : Header) : String :=
  Text.lossy (header.releaseString.reverse.dropWhile (· = 0)).reverse

/-- The image for people. -/
def describe (image : Image) : Except Error String := do
  let header := image.header
  let key ← match image.publicKey with
    | none => pure []
    | some key => pure [s!"Public key (sha256):      {← key.fingerprint}"]
  let algorithm ← header.algorithm
  let descriptors ← image.descriptors.mapM Descriptor.describe
  let lines := [
    s!"Minimum libavb version:   {header.majorVersion}.{header.minorVersion}",
    s!"Header Block:             {Header.size} bytes",
    s!"Authentication Block:     {header.authenticationSize} bytes",
    s!"Auxiliary Block:          {header.auxiliarySize} bytes"]
    ++ key ++ [
    s!"Algorithm:                {algorithm.name}",
    s!"Rollback Index:           {header.rollbackIndex}",
    s!"Flags:                    {header.flags}",
    s!"Rollback Index Location:  {header.rollbackIndexLocation}",
    s!"Release String:           '{releaseText header}'"]
    ++ (if image.descriptors.isEmpty then [] else ["Descriptors:"])
  return Descriptor.unlines lines ++ String.join descriptors

end Image

end VerifiedBoot
