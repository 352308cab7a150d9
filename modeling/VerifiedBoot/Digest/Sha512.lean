import VerifiedBoot.Digest.Blocks

/-!
# SHA-512 and its shorter relatives

The digests of 64-bit words of the Secure Hash Standard. All run the same compression function
from different starting words; the shorter ones keep the head of what the longest one writes.
-/

namespace VerifiedBoot

namespace Digest.Sha512

/-- The constants of the rounds: fractional parts of the cube roots of the first 80 primes. -/
def roundConstants : Array UInt64 := #[
  0x428a2f98d728ae22, 0x7137449123ef65cd, 0xb5c0fbcfec4d3b2f, 0xe9b5dba58189dbbc,
  0x3956c25bf348b538, 0x59f111f1b605d019, 0x923f82a4af194f9b, 0xab1c5ed5da6d8118,
  0xd807aa98a3030242, 0x12835b0145706fbe, 0x243185be4ee4b28c, 0x550c7dc3d5ffb4e2,
  0x72be5d74f27b896f, 0x80deb1fe3b1696b1, 0x9bdc06a725c71235, 0xc19bf174cf692694,
  0xe49b69c19ef14ad2, 0xefbe4786384f25e3, 0x0fc19dc68b8cd5b5, 0x240ca1cc77ac9c65,
  0x2de92c6f592b0275, 0x4a7484aa6ea6e483, 0x5cb0a9dcbd41fbd4, 0x76f988da831153b5,
  0x983e5152ee66dfab, 0xa831c66d2db43210, 0xb00327c898fb213f, 0xbf597fc7beef0ee4,
  0xc6e00bf33da88fc2, 0xd5a79147930aa725, 0x06ca6351e003826f, 0x142929670a0e6e70,
  0x27b70a8546d22ffc, 0x2e1b21385c26c926, 0x4d2c6dfc5ac42aed, 0x53380d139d95b3df,
  0x650a73548baf63de, 0x766a0abb3c77b2a8, 0x81c2c92e47edaee6, 0x92722c851482353b,
  0xa2bfe8a14cf10364, 0xa81a664bbc423001, 0xc24b8b70d0f89791, 0xc76c51a30654be30,
  0xd192e819d6ef5218, 0xd69906245565a910, 0xf40e35855771202a, 0x106aa07032bbd1b8,
  0x19a4c116b8d2d0c8, 0x1e376c085141ab53, 0x2748774cdf8eeb99, 0x34b0bcb5e19b48a8,
  0x391c0cb3c5c95a63, 0x4ed8aa4ae3418acb, 0x5b9cca4f7763e373, 0x682e6ff3d6b2b8a3,
  0x748f82ee5defb2fc, 0x78a5636f43172f60, 0x84c87814a1f0ab72, 0x8cc702081a6439ec,
  0x90befffa23631e28, 0xa4506cebde82bde9, 0xbef9a3f7b2c67915, 0xc67178f2e372532b,
  0xca273eceea26619c, 0xd186b8c721c0c207, 0xeada7dd6cde0eb1e, 0xf57d4f7fee6ed178,
  0x06f067aa72176fba, 0x0a637dc5a2c898a6, 0x113f9804bef90dae, 0x1b710b35131c471b,
  0x28db77f523047d84, 0x32caab7b40c72493, 0x3c9ebe0a15c9bebc, 0x431d67c49c100d4c,
  0x4cc5d4becb3e42b6, 0x597f299cfc657e2a, 0x5fcb6fab3ad6faec, 0x6c44198c4a475817]

/-- The eight words that are carried from block to block. -/
structure State where
  a : UInt64
  b : UInt64
  c : UInt64
  d : UInt64
  e : UInt64
  f : UInt64
  g : UInt64
  h : UInt64

namespace State

/-- The words in order. -/
def words (s : State) : List UInt64 :=
  [s.a, s.b, s.c, s.d, s.e, s.f, s.g, s.h]

/-- The sum word by word. -/
def add (s t : State) : State :=
  ⟨s.a + t.a, s.b + t.b, s.c + t.c, s.d + t.d, s.e + t.e, s.f + t.f, s.g + t.g, s.h + t.h⟩

end State

/-- The message words of a block and the words that extend them to one a round. -/
def schedule (data : ByteArray) (position : Nat) : Array UInt64 :=
  let block := (List.range 16).foldl
    (fun (w : Array UInt64) i => w.push (wordAt64 .big data (position + 8 * i))) #[]
  (List.range 64).foldl (fun (w : Array UInt64) i =>
    let x := w.getD (i + 1) 0
    let y := w.getD (i + 14) 0
    let s₀ := rotr64 x 1 ^^^ rotr64 x 8 ^^^ (x >>> 7)
    let s₁ := rotr64 y 19 ^^^ rotr64 y 61 ^^^ (y >>> 6)
    w.push (w.getD i 0 + s₀ + w.getD (i + 9) 0 + s₁)) block

/-- One round with its constant and its message word. -/
def round (s : State) (k w : UInt64) : State :=
  let s₁ := rotr64 s.e 14 ^^^ rotr64 s.e 18 ^^^ rotr64 s.e 41
  let choice := (s.e &&& s.f) ^^^ ((~~~ s.e) &&& s.g)
  let t₁ := s.h + s₁ + choice + k + w
  let s₀ := rotr64 s.a 28 ^^^ rotr64 s.a 34 ^^^ rotr64 s.a 39
  let majority := (s.a &&& s.b) ^^^ (s.a &&& s.c) ^^^ (s.b &&& s.c)
  ⟨t₁ + (s₀ + majority), s.a, s.b, s.c, s.d + t₁, s.e, s.f, s.g⟩

/-- One block folded into the state. -/
def compress (data : ByteArray) (s : State) (position : Nat) : State :=
  let w := schedule data position
  s.add <| (List.range 80).foldl
    (fun t i => round t (roundConstants.getD i 0) (w.getD i 0)) s

/-- The state after a whole message. -/
def run (start : State) (message : Bytes) : State :=
  let data := padded .big 128 16 message
  foldBlocks 128 data (compress data) start

/-- The starting words of SHA-512. -/
def start512 : State :=
  ⟨0x6a09e667f3bcc908, 0xbb67ae8584caa73b, 0x3c6ef372fe94f82b, 0xa54ff53a5f1d36f1,
    0x510e527fade682d1, 0x9b05688c2b3e6c1f, 0x1f83d9abfb41bd6b, 0x5be0cd19137e2179⟩

/-- The starting words of SHA-384. -/
def start384 : State :=
  ⟨0xcbbb9d5dc1059ed8, 0x629a292a367cd507, 0x9159015a3070dd17, 0x152fecd8f70e5939,
    0x67332667ffc00b31, 0x8eb44a8768581511, 0xdb0c2e0d64f98fa7, 0x47b5481dbefa4fa4⟩

/-- The starting words of SHA-512/256. -/
def start256 : State :=
  ⟨0x22312194fc2bf72c, 0x9f555fa3c84c64c2, 0x2393b86b6f53b151, 0x963877195940eabd,
    0x96283ee2a88effe3, 0xbe5e1e2553863992, 0x2b0199fc2c85b8aa, 0x0eb72ddc81c52ca2⟩

/-- The starting words of SHA-512/224. -/
def start224 : State :=
  ⟨0x8c3d37c819544da2, 0x73e1996689dcd4d6, 0x1dfab7ae32ff9c82, 0x679dd514582f9fcf,
    0x0f6d2b697bd44da8, 0x77e36f7304c48942, 0x3f9d85a86a1d36c8, 0x1112e6ad91d692a1⟩

/-- The 64-byte digest. -/
def sha512 (message : Bytes) : Bytes :=
  bytesOf64 .big (run start512 message).words

/-- The 48-byte digest. -/
def sha384 (message : Bytes) : Bytes :=
  bytesOf64 .big ((run start384 message).words.take 6)

/-- The 32-byte digest on 64-bit words. -/
def sha512Short256 (message : Bytes) : Bytes :=
  (bytesOf64 .big (run start256 message).words).take 32

/-- The 28-byte digest on 64-bit words. -/
def sha512Short224 (message : Bytes) : Bytes :=
  (bytesOf64 .big (run start224 message).words).take 28

@[simp] theorem length_sha512 (message : Bytes) : (sha512 message).length = 64 :=
  length_bytesOf64 ..

@[simp] theorem length_sha384 (message : Bytes) : (sha384 message).length = 48 :=
  length_bytesOf64 ..

@[simp] theorem length_sha512Short256 (message : Bytes) : (sha512Short256 message).length = 32 := by
  rw [sha512Short256, List.length_take, length_bytesOf64]
  rfl

@[simp] theorem length_sha512Short224 (message : Bytes) : (sha512Short224 message).length = 28 := by
  rw [sha512Short224, List.length_take, length_bytesOf64]
  rfl

end Digest.Sha512

end VerifiedBoot
