import VerifiedBoot.Digest.Blocks

/-!
# BLAKE2

The unkeyed digests BLAKE2b, on 64-bit words, and BLAKE2s, on 32-bit words, at full length. The two
share their schedule of message words and the order in which the sixteen working words are mixed.
-/

namespace VerifiedBoot

namespace Digest.Blake2

/-- The order in which a round takes the message words; rounds repeat after ten. -/
def schedules : Array (Array Nat) := #[
  #[0, 1, 2, 3, 4, 5, 6, 7, 8, 9, 10, 11, 12, 13, 14, 15],
  #[14, 10, 4, 8, 9, 15, 13, 6, 1, 12, 0, 2, 11, 7, 5, 3],
  #[11, 8, 12, 0, 5, 2, 15, 13, 10, 14, 3, 6, 7, 1, 9, 4],
  #[7, 9, 3, 1, 13, 12, 11, 14, 2, 6, 5, 10, 4, 0, 15, 8],
  #[9, 0, 5, 7, 2, 4, 10, 15, 14, 1, 11, 12, 6, 8, 3, 13],
  #[2, 12, 6, 10, 0, 11, 8, 3, 4, 13, 7, 5, 15, 14, 1, 9],
  #[12, 5, 1, 15, 14, 13, 4, 10, 0, 7, 6, 3, 9, 2, 8, 11],
  #[13, 11, 7, 14, 12, 1, 3, 9, 5, 0, 15, 4, 8, 6, 2, 10],
  #[6, 15, 14, 9, 11, 3, 0, 8, 12, 2, 13, 7, 1, 4, 10, 5],
  #[10, 2, 8, 4, 7, 6, 1, 5, 15, 11, 9, 14, 3, 12, 13, 0]]

/-- The four working words that each of the eight mixings of a round takes: columns, then
diagonals. -/
def quarters : List (Nat × Nat × Nat × Nat) := [
  (0, 4, 8, 12), (1, 5, 9, 13), (2, 6, 10, 14), (3, 7, 11, 15),
  (0, 5, 10, 15), (1, 6, 11, 12), (2, 7, 8, 13), (3, 4, 9, 14)]

/-- What the word size fixes: arithmetic on words, rotations, rounds and the starting words. -/
structure Variant (W : Type) where
  zero : W
  add : W → W → W
  xor : W → W → W
  rotate : W → Nat → W
  ofNat : Nat → W
  toNat : W → Nat
  /-- The bytes of a word. -/
  width : Nat
  rounds : Nat
  rotations : Nat × Nat × Nat × Nat
  start : Array W

variable {W : Type}

/-- One mixing of four working words with two message words. -/
def mix (v : Variant W) (w : Array W) (q : Nat × Nat × Nat × Nat) (x y : W) : Array W :=
  let (ia, ib, ic, id) := q
  let (r₁, r₂, r₃, r₄) := v.rotations
  let get (i : Nat) := w.getD i v.zero
  let a := v.add (v.add (get ia) (get ib)) x
  let d := v.rotate (v.xor (get id) a) r₁
  let c := v.add (get ic) d
  let b := v.rotate (v.xor (get ib) c) r₂
  let a := v.add (v.add a b) y
  let d := v.rotate (v.xor d a) r₃
  let c := v.add c d
  let b := v.rotate (v.xor b c) r₄
  (((w.setIfInBounds ia a).setIfInBounds ib b).setIfInBounds ic c).setIfInBounds id d

/-- One round on the message words of a block. -/
def round (v : Variant W) (m w : Array W) (i : Nat) : Array W :=
  let order := schedules.getD (i % 10) #[]
  let word (j : Nat) := m.getD (order.getD j 0) v.zero
  (quarters.zipIdx).foldl (fun w (q, j) => mix v w q (word (2 * j)) (word (2 * j + 1))) w

/-- One block of sixteen words folded into the state; `count` bytes were taken with it. -/
def compress (v : Variant W) (m h : Array W) (count : Nat) (last : Bool) : Array W :=
  let modulus := 1 <<< (8 * v.width)
  let ones := v.ofNat (modulus - 1)
  let w := h ++ v.start
  let w := w.modify 12 fun x => v.xor x (v.ofNat (count % modulus))
  let w := w.modify 13 fun x => v.xor x (v.ofNat (count / modulus))
  let w := if last then w.modify 14 fun x => v.xor x ones else w
  let w := (List.range v.rounds).foldl (round v m) w
  (List.range 8).foldl (fun (t : Array W) i =>
    let get (a : Array W) (j : Nat) := a.getD j v.zero
    t.push (v.xor (v.xor (get h i) (get w i)) (get w (i + 8)))) #[]

/-- The message words of the block that starts at a position, zero past the end. -/
def block (v : Variant W) (data : ByteArray) (position : Nat) : Array W :=
  (List.range 16).foldl (fun (m : Array W) i =>
    let start := position + v.width * i
    m.push (v.ofNat ((List.range v.width).foldr
      (fun j n => n * 256 + (byteAt data (start + j)).toNat) 0))) #[]

/-- The digest of eight words. -/
def digest (v : Variant W) (message : Bytes) : Bytes :=
  let data := message.toByteArray
  let size := data.size
  let width := 16 * v.width
  let blocks := if size = 0 then 1 else (size + width - 1) / width
  let parameters := v.ofNat (0x01010000 + 8 * v.width)
  let h := v.start.modify 0 fun x => v.xor x parameters
  let h := (List.range blocks).foldl (fun h i =>
    let last := i + 1 = blocks
    compress v (block v data (i * width)) h (if last then size else (i + 1) * width) last) h
  h.toList.flatMap fun w => Bytes.littleEndian v.width (v.toNat w)

/-- A block leaves eight words. -/
theorem size_compress (v : Variant W) (m h : Array W) (count : Nat) (last : Bool) :
    (compress v m h count last).size = 8 := by
  simp [compress, List.range, List.range.loop]

/-- A digest has eight words if it starts with eight. -/
theorem length_digest (v : Variant W) (h : v.start.size = 8) (message : Bytes) :
    (digest v message).length = 8 * v.width := by
  have hfold (step : Array W → Nat → Array W) (hstep : ∀ s i, (step s i).size = 8)
      (positions : List Nat) (s : Array W) (hs : s.size = 8) :
      (positions.foldl step s).size = 8 := by
    induction positions generalizing s with
    | nil => exact hs
    | cons i rest ih => exact ih _ (hstep s i)
  have hwords (words : List W) :
      (words.flatMap fun w => Bytes.littleEndian v.width (v.toNat w)).length =
        words.length * v.width := by
    induction words with
    | nil => simp
    | cons w words ih =>
      rw [List.flatMap_cons, List.length_append, Bytes.length_littleEndian, ih, List.length_cons,
        Nat.succ_mul, Nat.add_comm]
  rw [digest, hwords, Array.length_toList, hfold _ fun _ _ => size_compress ..]
  rw [Array.size_modify, h]

/-- BLAKE2b. -/
def variantB : Variant UInt64 where
  zero := 0
  add := (· + ·)
  xor := (· ^^^ ·)
  rotate x n := rotr64 x (UInt64.ofNat n)
  ofNat := UInt64.ofNat
  toNat := UInt64.toNat
  width := 8
  rounds := 12
  rotations := (32, 24, 16, 63)
  start := #[0x6a09e667f3bcc908, 0xbb67ae8584caa73b, 0x3c6ef372fe94f82b, 0xa54ff53a5f1d36f1,
    0x510e527fade682d1, 0x9b05688c2b3e6c1f, 0x1f83d9abfb41bd6b, 0x5be0cd19137e2179]

/-- BLAKE2s. -/
def variantS : Variant UInt32 where
  zero := 0
  add := (· + ·)
  xor := (· ^^^ ·)
  rotate x n := rotr32 x (UInt32.ofNat n)
  ofNat := UInt32.ofNat
  toNat := UInt32.toNat
  width := 4
  rounds := 10
  rotations := (16, 12, 8, 7)
  start := #[0x6a09e667, 0xbb67ae85, 0x3c6ef372, 0xa54ff53a,
    0x510e527f, 0x9b05688c, 0x1f83d9ab, 0x5be0cd19]

/-- The 64-byte digest. -/
def blake2b (message : Bytes) : Bytes :=
  digest variantB message

/-- The 32-byte digest. -/
def blake2s (message : Bytes) : Bytes :=
  digest variantS message

@[simp] theorem length_blake2b (message : Bytes) : (blake2b message).length = 64 :=
  length_digest variantB rfl message

@[simp] theorem length_blake2s (message : Bytes) : (blake2s message).length = 32 :=
  length_digest variantS rfl message

end Digest.Blake2

end VerifiedBoot
