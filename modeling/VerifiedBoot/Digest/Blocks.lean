import VerifiedBoot.Bytes.Basic

/-!
# Messages in blocks

The iterated digests pad a message with a one bit, zeros and the message's length in bits to whole
blocks, and fold a compression function over the blocks. Block contents are read as words in
either byte order.
-/

namespace VerifiedBoot

namespace Digest

/-- The byte order of words and lengths. -/
inductive ByteOrder where
  | big
  | little
  deriving DecidableEq, Repr

/-- The bytes of a number in a byte order. -/
def ByteOrder.encode : ByteOrder → Nat → Nat → Bytes
  | big => Bytes.bigEndian
  | little => Bytes.littleEndian

/-- What is appended to a message of `size` bytes to fill blocks of `block` bytes, of which the
last `tail` hold the length. -/
def padding (order : ByteOrder) (block tail size : Nat) : Bytes :=
  let zeros := (block - (size + 1 + tail) % block) % block
  0x80 :: Bytes.zeros zeros ++ order.encode tail (8 * size)

/-- The message with its padding. -/
def padded (order : ByteOrder) (block tail : Nat) (message : Bytes) : ByteArray :=
  (message ++ padding order block tail message.length).toByteArray

/-- Folds over the positions at which blocks start. -/
def foldBlocks {σ : Type} (block : Nat) (data : ByteArray) (step : σ → Nat → σ) (start : σ) : σ :=
  (List.range (data.size / block)).foldl (fun state i => step state (i * block)) start

/-- The byte at a position, zero past the end. -/
def byteAt (data : ByteArray) (position : Nat) : UInt8 :=
  if h : position < data.size then data[position] else 0

/-- The 32-bit word that starts at a position. -/
def wordAt32 (order : ByteOrder) (data : ByteArray) (position : Nat) : UInt32 :=
  let byte (i : Nat) : UInt32 := (byteAt data (position + i)).toUInt32
  match order with
  | .big => byte 0 <<< 24 ||| byte 1 <<< 16 ||| byte 2 <<< 8 ||| byte 3
  | .little => byte 3 <<< 24 ||| byte 2 <<< 16 ||| byte 1 <<< 8 ||| byte 0

/-- The 64-bit word that starts at a position. -/
def wordAt64 (order : ByteOrder) (data : ByteArray) (position : Nat) : UInt64 :=
  let high := (wordAt32 order data position).toUInt64
  let low := (wordAt32 order data (position + 4)).toUInt64
  match order with
  | .big => high <<< 32 ||| low
  | .little => low <<< 32 ||| high

/-- Rotation to the left. -/
def rotl32 (x n : UInt32) : UInt32 :=
  x <<< n ||| x >>> (32 - n)

/-- Rotation to the right. -/
def rotr32 (x n : UInt32) : UInt32 :=
  x >>> n ||| x <<< (32 - n)

/-- Rotation to the left. -/
def rotl64 (x n : UInt64) : UInt64 :=
  x <<< n ||| x >>> (64 - n)

/-- Rotation to the right. -/
def rotr64 (x n : UInt64) : UInt64 :=
  x >>> n ||| x <<< (64 - n)

/-- The bytes of 32-bit words, one after the other. -/
def bytesOf32 (order : ByteOrder) (words : List UInt32) : Bytes :=
  words.flatMap fun w => order.encode 4 w.toNat

/-- The bytes of 64-bit words, one after the other. -/
def bytesOf64 (order : ByteOrder) (words : List UInt64) : Bytes :=
  words.flatMap fun w => order.encode 8 w.toNat

theorem length_encode (order : ByteOrder) (width n : Nat) :
    (order.encode width n).length = width := by
  cases order <;> simp [ByteOrder.encode]

/-- A word takes four bytes. -/
theorem length_bytesOf32 (order : ByteOrder) (words : List UInt32) :
    (bytesOf32 order words).length = 4 * words.length := by
  induction words with
  | nil => rfl
  | cons w words ih =>
    simp only [bytesOf32, List.flatMap_cons, List.length_append, length_encode,
      List.length_cons] at ih ⊢
    omega

/-- A word takes eight bytes. -/
theorem length_bytesOf64 (order : ByteOrder) (words : List UInt64) :
    (bytesOf64 order words).length = 8 * words.length := by
  induction words with
  | nil => rfl
  | cons w words ih =>
    simp only [bytesOf64, List.flatMap_cons, List.length_append, length_encode,
      List.length_cons] at ih ⊢
    omega

end Digest

end VerifiedBoot
