/-!
# Byte strings

The contents of a partition, a blob or a field are a list of bytes. This module holds the
operations that every binary layout is made of: big-endian numbers, fields of a fixed width, zero
padding, and writing into the middle of a file.

The small lemmas give the length of each result.
-/

namespace VerifiedBoot

/-- A byte string. -/
abbrev Bytes := List UInt8

namespace Bytes

/-- `count` zero bytes. -/
def zeros (count : Nat) : Bytes :=
  List.replicate count 0

/-- Zero bytes are appended until the length is at least `size`. -/
def padTo (size : Nat) (data : Bytes) : Bytes :=
  data ++ zeros (size - data.length)

/-- A field of exactly `width` bytes: longer data is cut, shorter data is filled up with zeros. -/
def fit (width : Nat) (data : Bytes) : Bytes :=
  padTo width (data.take width)

/-- The `width` low bytes of a number, least significant first. -/
def littleEndian : Nat → Nat → Bytes
  | 0, _ => []
  | width + 1, n => UInt8.ofNat n :: littleEndian width (n / 256)

/-- The `width` low bytes of a number, most significant first. -/
def bigEndian (width n : Nat) : Bytes :=
  (littleEndian width n).reverse

/-- The number that bytes denote, most significant first. -/
def toNat (data : Bytes) : Nat :=
  data.foldl (fun acc b => acc * 256 + b.toNat) 0

/-- The file that holds `data` from position `start` on and is otherwise unchanged. A gap between
the old end and `start` reads as zeros; nothing is written for empty data. -/
def overwrite (file : Bytes) (start : Nat) (data : Bytes) : Bytes :=
  if data.isEmpty then file
  else padTo start (file.take start) ++ data ++ file.drop (start + data.length)

/-- The `size` bytes from position `start` on, or fewer where the data ends. -/
def slice (data : Bytes) (start size : Nat) : Bytes :=
  (data.drop start).take size

/-- The bytes of `text` in UTF-8. -/
def ofString (text : String) : Bytes :=
  text.toUTF8.data.toList

/-- The text that the bytes denote in UTF-8, if they are well formed. -/
def toString? (data : Bytes) : Option String :=
  String.fromUTF8? ⟨data.toArray⟩

/-- Two lower-case hexadecimal digits a byte. -/
def hex (data : Bytes) : String :=
  String.ofList (data.flatMap fun b => [Nat.digitChar (b.toNat / 16), Nat.digitChar (b.toNat % 16)])

@[simp] theorem length_zeros (count : Nat) : (zeros count).length = count := by
  simp [zeros]

@[simp] theorem length_padTo (size : Nat) (data : Bytes) :
    (padTo size data).length = max size data.length := by
  simp only [padTo, List.length_append, length_zeros]
  omega

@[simp] theorem length_fit (width : Nat) (data : Bytes) : (fit width data).length = width := by
  simp only [fit, length_padTo, List.length_take]
  omega

theorem fit_of_length {width : Nat} {data : Bytes} (h : data.length = width) :
    fit width data = data := by
  simp [fit, padTo, zeros, ← h]

/-- A slice has its size, or ends where the data does. -/
theorem length_slice (data : Bytes) (start size : Nat) :
    (slice data start size).length = min size (data.length - start) := by
  rw [slice, List.length_take, List.length_drop]

@[simp] theorem length_littleEndian (width n : Nat) : (littleEndian width n).length = width := by
  induction width generalizing n with
  | zero => rfl
  | succ width ih => simp [littleEndian, ih]

@[simp] theorem length_bigEndian (width n : Nat) : (bigEndian width n).length = width := by
  simp [bigEndian]

@[simp] theorem toString?_ofString (text : String) : toString? (ofString text) = some text := by
  have valid : text.toUTF8.IsValidUTF8 := text.isValidUTF8
  simp only [toString?, ofString, String.fromUTF8?, Array.toArray_toList]
  exact dif_pos valid

end Bytes

end VerifiedBoot
