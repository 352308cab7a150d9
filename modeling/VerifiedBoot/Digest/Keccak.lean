import VerifiedBoot.Digest.Blocks

/-!
# SHA-3

The digests of the Keccak sponge: the state is 25 lanes of 64 bits, a message is absorbed in blocks
of the rate, and the digest is the head of the final state.
-/

namespace VerifiedBoot

namespace Digest.Keccak

/-- The constants of the 24 rounds. -/
def roundConstants : List UInt64 := [
  0x0000000000000001, 0x0000000000008082, 0x800000000000808a, 0x8000000080008000,
  0x000000000000808b, 0x0000000080000001, 0x8000000080008081, 0x8000000000008009,
  0x000000000000008a, 0x0000000000000088, 0x0000000080008009, 0x000000008000000a,
  0x000000008000808b, 0x800000000000008b, 0x8000000000008089, 0x8000000000008003,
  0x8000000000008002, 0x8000000000000080, 0x000000000000800a, 0x800000008000000a,
  0x8000000080008081, 0x8000000000008080, 0x0000000080000001, 0x8000000080008008]

/-- The rotation of each lane, at index `x + 5 * y`. -/
def rotations : Array UInt64 := #[
  0, 1, 62, 28, 27,
  36, 44, 6, 55, 20,
  3, 10, 43, 25, 39,
  41, 45, 15, 21, 8,
  18, 2, 61, 56, 14]

/-- The state, lane `x + 5 * y`. -/
abbrev State := Array UInt64

/-- The lane in column `x` and row `y`, both modulo 5. -/
def lane (s : State) (x y : Nat) : UInt64 :=
  s.getD (x % 5 + 5 * (y % 5)) 0

/-- The state whose lanes a function gives. -/
def build (f : Nat → Nat → UInt64) : State :=
  (List.range 25).foldl (fun (s : State) i => s.push (f (i % 5) (i / 5))) #[]

/-- A lane rotated by any number of bits, none included. -/
private def rotate (x n : UInt64) : UInt64 :=
  if n = 0 then x else rotl64 x n

/-- One round with its constant. -/
def round (s : State) (constant : UInt64) : State :=
  let column (x : Nat) := lane s x 0 ^^^ lane s x 1 ^^^ lane s x 2 ^^^ lane s x 3 ^^^ lane s x 4
  let columns := (List.range 5).foldl (fun (c : Array UInt64) x => c.push (column x)) #[]
  let parity (x : Nat) := columns.getD (x % 5) 0
  let mixed := build fun x y => lane s x y ^^^ parity (x + 4) ^^^ rotl64 (parity (x + 1)) 1
  let turned := build fun x y =>
    rotate (lane mixed (x + 3 * y) x) (rotations.getD ((x + 3 * y) % 5 + 5 * x) 0)
  build fun x y =>
    let value := lane turned x y ^^^ ((~~~ lane turned (x + 1) y) &&& lane turned (x + 2) y)
    if x = 0 ∧ y = 0 then value ^^^ constant else value

/-- All rounds. -/
def permute (s : State) : State :=
  roundConstants.foldl round s

/-- The block that starts at a position, folded into the state. -/
def absorb (rate : Nat) (data : ByteArray) (s : State) (position : Nat) : State :=
  permute <| build fun x y =>
    let i := x + 5 * y
    if 8 * i < rate then lane s x y ^^^ wordAt64 .little data (position + 8 * i) else lane s x y

/-- The message, the mark of the SHA-3 digests and the closing bit, in whole blocks. -/
def padded (rate : Nat) (message : Bytes) : ByteArray :=
  let gap := rate - message.length % rate
  let tail := if gap = 1 then [0x86] else 0x06 :: Bytes.zeros (gap - 2) ++ [0x80]
  (message ++ tail).toByteArray

/-- The digest of `size` bytes. -/
def sha3 (size : Nat) (message : Bytes) : Bytes :=
  let rate := 200 - 2 * size
  let data := padded rate message
  let s := foldBlocks rate data (absorb rate data) (build fun _ _ => 0)
  (bytesOf64 .little s.toList).take size

/-- The digest has no more bytes than were asked for. -/
theorem length_sha3_le (size : Nat) (message : Bytes) : (sha3 size message).length ≤ size := by
  rw [sha3, List.length_take]
  exact Nat.min_le_left _ _

end Digest.Keccak

end VerifiedBoot
