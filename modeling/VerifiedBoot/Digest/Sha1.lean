import VerifiedBoot.Digest.Blocks

/-!
# SHA-1

The 160-bit digest of the Secure Hash Standard.
-/

namespace VerifiedBoot

namespace Digest.Sha1

/-- The five words that are carried from block to block. -/
structure State where
  a : UInt32
  b : UInt32
  c : UInt32
  d : UInt32
  e : UInt32

/-- The message words of a block and the words that extend them to one a round. -/
def schedule (data : ByteArray) (position : Nat) : Array UInt32 :=
  let block := (List.range 16).foldl
    (fun (w : Array UInt32) i => w.push (wordAt32 .big data (position + 4 * i))) #[]
  (List.range 64).foldl (fun (w : Array UInt32) i =>
    w.push (rotl32 (w.getD (i + 13) 0 ^^^ w.getD (i + 8) 0 ^^^ w.getD (i + 2) 0 ^^^ w.getD i 0) 1))
    block

/-- The function and the constant of a round. -/
def mix (i : Nat) (b c d : UInt32) : UInt32 × UInt32 :=
  if i < 20 then ((b &&& c) ||| ((~~~ b) &&& d), 0x5a827999)
  else if i < 40 then (b ^^^ c ^^^ d, 0x6ed9eba1)
  else if i < 60 then ((b &&& c) ||| (b &&& d) ||| (c &&& d), 0x8f1bbcdc)
  else (b ^^^ c ^^^ d, 0xca62c1d6)

/-- One block folded into the state. -/
def compress (data : ByteArray) (s : State) (position : Nat) : State :=
  let w := schedule data position
  let t := (List.range 80).foldl (fun (t : State) i =>
    let (f, k) := mix i t.b t.c t.d
    ⟨rotl32 t.a 5 + f + t.e + k + w.getD i 0, t.a, rotl32 t.b 30, t.c, t.d⟩) s
  ⟨s.a + t.a, s.b + t.b, s.c + t.c, s.d + t.d, s.e + t.e⟩

/-- The 20-byte digest. -/
def sha1 (message : Bytes) : Bytes :=
  let data := padded .big 64 8 message
  let s := foldBlocks 64 data (compress data)
    ⟨0x67452301, 0xefcdab89, 0x98badcfe, 0x10325476, 0xc3d2e1f0⟩
  bytesOf32 .big [s.a, s.b, s.c, s.d, s.e]

@[simp] theorem length_sha1 (message : Bytes) : (sha1 message).length = 20 :=
  length_bytesOf32 ..

end Digest.Sha1

end VerifiedBoot
