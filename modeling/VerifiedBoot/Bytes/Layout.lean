import VerifiedBoot.Error

/-!
# Fixed binary layouts

A layout is a list of fields, each an unsigned big-endian word or a block of bytes of a fixed
width. Its rows hold one value a field: an unbounded integer for a word, a byte string for a
block. A row is written by `pack`, which fails on a word that its field cannot hold, and read by
`unpack`, which fails where the data is too short. Blocks are cut or filled up with zeros.
-/

namespace VerifiedBoot

/-- A field of a fixed width in bytes. -/
inductive Field where
  | word (width : Nat)
  | block (width : Nat)
  deriving DecidableEq, Repr

namespace Field

/-- The bytes that the field takes. -/
def width : Field → Nat
  | word width => width
  | block width => width

/-- What the field holds. -/
def Carrier : Field → Type
  | word _ => Int
  | block _ => Bytes

/-- The bytes of a value. -/
def pack : (field : Field) → field.Carrier → Except Error Bytes
  | word width, (n : Int) =>
    if 0 ≤ n ∧ n < (1 <<< (8 * width) : Nat) then .ok (Bytes.bigEndian width n.toNat)
    else .error .fieldRange
  | block width, (data : Bytes) => .ok (Bytes.fit width data)

/-- The value that bytes of the field's width hold. -/
def read : (field : Field) → Bytes → field.Carrier
  | word _, data => (Bytes.toNat data : Int)
  | block _, data => data

/-- A packed value has the width of its field. -/
theorem length_pack {field : Field} {value : field.Carrier} {data : Bytes}
    (h : field.pack value = .ok data) : data.length = field.width := by
  cases field with
  | word width =>
    simp only [pack] at h
    split at h
    · cases h
      exact Bytes.length_bigEndian width _
    · cases h
  | block width =>
    cases h
    exact Bytes.length_fit width value

end Field

/-- The fields of a structure, in the order in which they are written. -/
abbrev Layout := List Field

namespace Layout

/-- The bytes that all fields take together. -/
def size : Layout → Nat
  | [] => 0
  | field :: rest => field.width + size rest

/-- One value for each field. -/
def Row : Layout → Type
  | [] => Unit
  | field :: rest => field.Carrier × Row rest

/-- The bytes of a row. -/
def pack : (layout : Layout) → Row layout → Except Error Bytes
  | [], _ => .ok []
  | field :: rest, (value, values) => do
    let head ← field.pack value
    let tail ← pack rest values
    return head ++ tail

/-- The row at the head of the data, which is long enough. -/
def read : (layout : Layout) → Bytes → Row layout
  | [], _ => ()
  | field :: rest, data => (field.read (data.take field.width), read rest (data.drop field.width))

/-- The row at the head of the data. -/
def unpack (layout : Layout) (data : Bytes) : Except Error (Row layout) :=
  if data.length < layout.size then .error (.malformed .truncated) else .ok (read layout data)

/-- A packed row has the size of its layout. -/
theorem length_pack {layout : Layout} {row : layout.Row} {data : Bytes}
    (h : layout.pack row = .ok data) : data.length = layout.size := by
  induction layout generalizing data with
  | nil =>
    cases h
    rfl
  | cons field rest ih =>
    obtain ⟨value, values⟩ := row
    simp only [pack] at h
    cases hhead : field.pack value with
    | error e => simp [hhead, bind, Except.bind] at h
    | ok head =>
      cases htail : pack rest values with
      | error e => simp [hhead, htail, bind, Except.bind] at h
      | ok tail =>
        simp only [hhead, htail, bind, Except.bind, pure, Except.pure, Except.ok.injEq] at h
        rw [← h, List.length_append, Field.length_pack hhead, ih htail, size]

end Layout

/-- A word of 32 bits. -/
abbrev word32 : Field := .word 4

/-- A word of 64 bits. -/
abbrev word64 : Field := .word 8

/-- Turns down an unsigned number that would be negative as a signed one of the same width. The
number may be any integer, and a width of no bits at all is a negative shift. -/
def checkUnsigned (value bits : Int) (field : String) : Except Error Int :=
  if bits < 1 then .error .negativeWidth
  else if value >>> (bits - 1).toNat ≠ 0 then .error (.malformed (.overflow field bits value))
  else .ok value

/-- Checks named 64-bit fields one after the other. -/
def checkExtents : List (String × Int) → Except Error Unit
  | [] => .ok ()
  | (field, value) :: rest => do
    let _ ← checkUnsigned value 64 field
    checkExtents rest

end VerifiedBoot
