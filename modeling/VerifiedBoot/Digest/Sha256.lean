import VerifiedBoot.Digest.Blocks

/-!
# SHA-256 and SHA-224

The digests of 32-bit words of the Secure Hash Standard. Both run the same compression function
from different starting words; the shorter one keeps seven of the eight words.
-/

namespace VerifiedBoot

namespace Digest.Sha256

/-- The constants of the rounds: fractional parts of the cube roots of the first 64 primes. -/
def roundConstants : Array UInt32 := #[
  0x428a2f98, 0x71374491, 0xb5c0fbcf, 0xe9b5dba5, 0x3956c25b, 0x59f111f1, 0x923f82a4,
  0xab1c5ed5, 0xd807aa98, 0x12835b01, 0x243185be, 0x550c7dc3, 0x72be5d74, 0x80deb1fe,
  0x9bdc06a7, 0xc19bf174, 0xe49b69c1, 0xefbe4786, 0x0fc19dc6, 0x240ca1cc, 0x2de92c6f,
  0x4a7484aa, 0x5cb0a9dc, 0x76f988da, 0x983e5152, 0xa831c66d, 0xb00327c8, 0xbf597fc7,
  0xc6e00bf3, 0xd5a79147, 0x06ca6351, 0x14292967, 0x27b70a85, 0x2e1b2138, 0x4d2c6dfc,
  0x53380d13, 0x650a7354, 0x766a0abb, 0x81c2c92e, 0x92722c85, 0xa2bfe8a1, 0xa81a664b,
  0xc24b8b70, 0xc76c51a3, 0xd192e819, 0xd6990624, 0xf40e3585, 0x106aa070, 0x19a4c116,
  0x1e376c08, 0x2748774c, 0x34b0bcb5, 0x391c0cb3, 0x4ed8aa4a, 0x5b9cca4f, 0x682e6ff3,
  0x748f82ee, 0x78a5636f, 0x84c87814, 0x8cc70208, 0x90befffa, 0xa4506ceb, 0xbef9a3f7,
  0xc67178f2]

/-- The eight words that are carried from block to block. -/
structure State where
  a : UInt32
  b : UInt32
  c : UInt32
  d : UInt32
  e : UInt32
  f : UInt32
  g : UInt32
  h : UInt32

namespace State

/-- The words in order. -/
def words (s : State) : List UInt32 :=
  [s.a, s.b, s.c, s.d, s.e, s.f, s.g, s.h]

/-- The sum word by word. -/
def add (s t : State) : State :=
  ⟨s.a + t.a, s.b + t.b, s.c + t.c, s.d + t.d, s.e + t.e, s.f + t.f, s.g + t.g, s.h + t.h⟩

end State

/-- The message words of a block and the words that extend them to one a round. -/
def schedule (data : ByteArray) (position : Nat) : Array UInt32 :=
  let block := (List.range 16).foldl
    (fun (w : Array UInt32) i => w.push (wordAt32 .big data (position + 4 * i))) #[]
  (List.range 48).foldl (fun (w : Array UInt32) i =>
    let x := w.getD (i + 1) 0
    let y := w.getD (i + 14) 0
    let s₀ := rotr32 x 7 ^^^ rotr32 x 18 ^^^ (x >>> 3)
    let s₁ := rotr32 y 17 ^^^ rotr32 y 19 ^^^ (y >>> 10)
    w.push (w.getD i 0 + s₀ + w.getD (i + 9) 0 + s₁)) block

/-- One round with its constant and its message word. -/
def round (s : State) (k w : UInt32) : State :=
  let s₁ := rotr32 s.e 6 ^^^ rotr32 s.e 11 ^^^ rotr32 s.e 25
  let choice := (s.e &&& s.f) ^^^ ((~~~ s.e) &&& s.g)
  let t₁ := s.h + s₁ + choice + k + w
  let s₀ := rotr32 s.a 2 ^^^ rotr32 s.a 13 ^^^ rotr32 s.a 22
  let majority := (s.a &&& s.b) ^^^ (s.a &&& s.c) ^^^ (s.b &&& s.c)
  ⟨t₁ + (s₀ + majority), s.a, s.b, s.c, s.d + t₁, s.e, s.f, s.g⟩

/-- One block folded into the state. -/
def compress (data : ByteArray) (s : State) (position : Nat) : State :=
  let w := schedule data position
  s.add <| (List.range 64).foldl
    (fun t i => round t (roundConstants.getD i 0) (w.getD i 0)) s

/-- The state after a whole message. -/
def run (start : State) (message : Bytes) : State :=
  let data := padded .big 64 8 message
  foldBlocks 64 data (compress data) start

/-- The 32-byte digest. -/
def sha256 (message : Bytes) : Bytes :=
  bytesOf32 .big (run ⟨0x6a09e667, 0xbb67ae85, 0x3c6ef372, 0xa54ff53a,
    0x510e527f, 0x9b05688c, 0x1f83d9ab, 0x5be0cd19⟩ message).words

/-- The 28-byte digest. -/
def sha224 (message : Bytes) : Bytes :=
  bytesOf32 .big ((run ⟨0xc1059ed8, 0x367cd507, 0x3070dd17, 0xf70e5939,
    0xffc00b31, 0x68581511, 0x64f98fa7, 0xbefa4fa4⟩ message).words.take 7)

@[simp] theorem length_sha256 (message : Bytes) : (sha256 message).length = 32 :=
  length_bytesOf32 ..

@[simp] theorem length_sha224 (message : Bytes) : (sha224 message).length = 28 :=
  length_bytesOf32 ..

end Digest.Sha256

end VerifiedBoot
