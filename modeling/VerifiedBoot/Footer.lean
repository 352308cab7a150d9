import VerifiedBoot.Bytes.Layout

/-!
# Footers

The last 64 bytes of a partition may be a footer. It says how long the partition's own image is and
where the vbmeta blob was put behind it.
-/

namespace VerifiedBoot

/-- A footer. -/
structure Footer where
  magic : Bytes
  majorVersion : Int
  minorVersion : Int
  originalImageSize : Int
  vbmetaOffset : Int
  vbmetaSize : Int
  reserved : Bytes
  deriving DecidableEq, Repr

namespace Footer

/-- The bytes that a footer begins with. -/
def signature : Bytes :=
  [0x41, 0x56, 0x42, 0x66]

/-- The fields of a footer. -/
def layout : Layout :=
  [.block 4, word32, word32, word64, word64, word64, .block 28]

/-- The bytes of a footer. -/
def size : Nat :=
  64

/-- A footer of the current version that describes nothing. -/
def empty : Footer where
  magic := signature
  majorVersion := 1
  minorVersion := 0
  originalImageSize := 0
  vbmetaOffset := 0
  vbmetaSize := 0
  reserved := Bytes.zeros 28

/-- The size and the extent of the blob, with their names in messages. -/
def extents (footer : Footer) : List (String × Int) := [
  ("original_image_size", footer.originalImageSize),
  ("vbmeta_offset", footer.vbmetaOffset),
  ("vbmeta_size", footer.vbmetaSize)]

/-- The values of the fields in order. -/
def toRow (footer : Footer) : layout.Row :=
  (footer.magic, footer.majorVersion, footer.minorVersion, footer.originalImageSize,
    footer.vbmetaOffset, footer.vbmetaSize, footer.reserved, ())

/-- The footer with the given values of its fields. -/
def ofRow (row : layout.Row) : Footer :=
  let (magic, majorVersion, minorVersion, originalImageSize, vbmetaOffset, vbmetaSize, reserved,
    _) := row
  { magic, majorVersion, minorVersion, originalImageSize, vbmetaOffset, vbmetaSize, reserved }

/-- The bytes of a footer. -/
def encode (footer : Footer) : Except Error Bytes :=
  layout.pack footer.toRow

/-- The footer that 64 bytes hold. -/
def decode (data : Bytes) : Except Error Footer := do
  if data.length ≠ size then
    throw (.malformed .footerLength)
  let footer := ofRow (← layout.unpack data)
  if footer.magic ≠ signature then
    throw (.malformed .footerMagic)
  checkExtents footer.extents
  return footer

/-- How a footer is shown. -/
def toText (footer : Footer) : String :=
  s!"AvbFooter(original_image_size={footer.originalImageSize}, " ++
    s!"vbmeta_offset={footer.vbmetaOffset}, vbmeta_size={footer.vbmetaSize})"

end Footer

end VerifiedBoot
