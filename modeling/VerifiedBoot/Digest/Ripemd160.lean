import VerifiedBoot.Digest.Blocks

/-!
# RIPEMD-160

The 160-bit digest that runs two lines of eighty steps beside each other over each block and adds
up what both end in. The lines differ in the order of message words, in rotations, in constants and
in the order of their functions.
-/

namespace VerifiedBoot

namespace Digest.Ripemd160

/-- The five words that are carried from block to block. -/
structure State where
  a : UInt32
  b : UInt32
  c : UInt32
  d : UInt32
  e : UInt32

/-- What tells the two lines apart. -/
structure Line where
  /-- The message word that each step takes. -/
  words : Array Nat
  rotations : Array UInt32
  /-- One constant for every sixteen steps. -/
  constants : Array UInt32
  /-- One function for every sixteen steps. -/
  functions : Array Nat

/-- The left line. -/
def left : Line where
  words := #[
    0, 1, 2, 3, 4, 5, 6, 7, 8, 9, 10, 11, 12, 13, 14, 15,
    7, 4, 13, 1, 10, 6, 15, 3, 12, 0, 9, 5, 2, 14, 11, 8,
    3, 10, 14, 4, 9, 15, 8, 1, 2, 7, 0, 6, 13, 11, 5, 12,
    1, 9, 11, 10, 0, 8, 12, 4, 13, 3, 7, 15, 14, 5, 6, 2,
    4, 0, 5, 9, 7, 12, 2, 10, 14, 1, 3, 8, 11, 6, 15, 13]
  rotations := #[
    11, 14, 15, 12, 5, 8, 7, 9, 11, 13, 14, 15, 6, 7, 9, 8,
    7, 6, 8, 13, 11, 9, 7, 15, 7, 12, 15, 9, 11, 7, 13, 12,
    11, 13, 6, 7, 14, 9, 13, 15, 14, 8, 13, 6, 5, 12, 7, 5,
    11, 12, 14, 15, 14, 15, 9, 8, 9, 14, 5, 6, 8, 6, 5, 12,
    9, 15, 5, 11, 6, 8, 13, 12, 5, 12, 13, 14, 11, 8, 5, 6]
  constants := #[0x00000000, 0x5a827999, 0x6ed9eba1, 0x8f1bbcdc, 0xa953fd4e]
  functions := #[0, 1, 2, 3, 4]

/-- The right line. -/
def right : Line where
  words := #[
    5, 14, 7, 0, 9, 2, 11, 4, 13, 6, 15, 8, 1, 10, 3, 12,
    6, 11, 3, 7, 0, 13, 5, 10, 14, 15, 8, 12, 4, 9, 1, 2,
    15, 5, 1, 3, 7, 14, 6, 9, 11, 8, 12, 2, 10, 0, 4, 13,
    8, 6, 4, 1, 3, 11, 15, 0, 5, 12, 2, 13, 9, 7, 10, 14,
    12, 15, 10, 4, 1, 5, 8, 7, 6, 2, 13, 14, 0, 3, 9, 11]
  rotations := #[
    8, 9, 9, 11, 13, 15, 15, 5, 7, 7, 8, 11, 14, 14, 12, 6,
    9, 13, 15, 7, 12, 8, 9, 11, 7, 7, 12, 7, 6, 15, 13, 11,
    9, 7, 15, 11, 8, 6, 6, 14, 12, 13, 5, 14, 13, 13, 7, 5,
    15, 5, 8, 11, 14, 14, 6, 14, 6, 9, 12, 9, 12, 5, 15, 8,
    8, 5, 12, 9, 12, 5, 14, 6, 8, 13, 6, 5, 15, 13, 11, 11]
  constants := #[0x50a28be6, 0x5c4dd124, 0x6d703ef3, 0x7a6d76e9, 0x00000000]
  functions := #[4, 3, 2, 1, 0]

/-- The function with a number, on three words. -/
def mix (number : Nat) (x y z : UInt32) : UInt32 :=
  match number with
  | 0 => x ^^^ y ^^^ z
  | 1 => (x &&& y) ||| ((~~~ x) &&& z)
  | 2 => (x ||| ~~~ y) ^^^ z
  | 3 => (x &&& z) ||| (y &&& ~~~ z)
  | _ => x ^^^ (y ||| ~~~ z)

/-- One step of a line. -/
def step (line : Line) (data : ByteArray) (position : Nat) (s : State) (i : Nat) : State :=
  let word := wordAt32 .little data (position + 4 * line.words.getD i 0)
  let f := mix (line.functions.getD (i / 16) 0) s.b s.c s.d
  let sum := s.a + f + word + line.constants.getD (i / 16) 0
  ⟨s.e, rotl32 sum (line.rotations.getD i 0) + s.e, s.b, rotl32 s.c 10, s.d⟩

/-- One block folded into the state. -/
def compress (data : ByteArray) (s : State) (position : Nat) : State :=
  let l := (List.range 80).foldl (step left data position) s
  let r := (List.range 80).foldl (step right data position) s
  ⟨s.b + l.c + r.d, s.c + l.d + r.e, s.d + l.e + r.a, s.e + l.a + r.b, s.a + l.b + r.c⟩

/-- The 20-byte digest. -/
def ripemd160 (message : Bytes) : Bytes :=
  let data := padded .little 64 8 message
  let s := foldBlocks 64 data (compress data)
    ⟨0x67452301, 0xefcdab89, 0x98badcfe, 0x10325476, 0xc3d2e1f0⟩
  bytesOf32 .little [s.a, s.b, s.c, s.d, s.e]

@[simp] theorem length_ripemd160 (message : Bytes) : (ripemd160 message).length = 20 :=
  length_bytesOf32 ..

end Digest.Ripemd160

end VerifiedBoot
