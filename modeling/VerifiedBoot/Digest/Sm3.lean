import VerifiedBoot.Digest.Blocks

/-!
# SM3

The 256-bit digest of 64 rounds on eight words, with two extended messages.
-/

namespace VerifiedBoot

namespace Digest.Sm3

/-- The eight words that are carried from block to block. -/
structure State where
  a : UInt32
  b : UInt32
  c : UInt32
  d : UInt32
  e : UInt32
  f : UInt32
  g : UInt32
  h : UInt32

/-- The message words of a block and the words that extend them. -/
def schedule (data : ByteArray) (position : Nat) : Array UInt32 :=
  let block := (List.range 16).foldl
    (fun (w : Array UInt32) i => w.push (wordAt32 .big data (position + 4 * i))) #[]
  (List.range 52).foldl (fun (w : Array UInt32) i =>
    let x := w.getD i 0 ^^^ w.getD (i + 7) 0 ^^^ rotl32 (w.getD (i + 13) 0) 15
    let spread := x ^^^ rotl32 x 15 ^^^ rotl32 x 23
    w.push (spread ^^^ rotl32 (w.getD (i + 3) 0) 7 ^^^ w.getD (i + 10) 0)) block

/-- The functions of a round on the first and on the last words, and its constant. -/
def mix (i : Nat) (s : State) : UInt32 × UInt32 × UInt32 :=
  if i < 16 then (s.a ^^^ s.b ^^^ s.c, s.e ^^^ s.f ^^^ s.g, 0x79cc4519)
  else ((s.a &&& s.b) ||| (s.a &&& s.c) ||| (s.b &&& s.c), (s.e &&& s.f) ||| ((~~~ s.e) &&& s.g),
    0x7a879d8a)

/-- One round on its message word and on the one four places later. -/
def round (s : State) (i : Nat) (word later : UInt32) : State :=
  let (first, last, constant) := mix i s
  let turned := rotl32 s.a 12
  let inner := rotl32 (turned + s.e + rotl32 constant (UInt32.ofNat (i % 32))) 7
  let a := first + s.d + (inner ^^^ turned) + (word ^^^ later)
  let e := last + s.h + inner + word
  ⟨a, s.a, rotl32 s.b 9, s.c, e ^^^ rotl32 e 9 ^^^ rotl32 e 17, s.e, rotl32 s.f 19, s.g⟩

/-- One block folded into the state. -/
def compress (data : ByteArray) (s : State) (position : Nat) : State :=
  let w := schedule data position
  let t := (List.range 64).foldl (fun t i => round t i (w.getD i 0) (w.getD (i + 4) 0)) s
  ⟨s.a ^^^ t.a, s.b ^^^ t.b, s.c ^^^ t.c, s.d ^^^ t.d, s.e ^^^ t.e, s.f ^^^ t.f, s.g ^^^ t.g,
    s.h ^^^ t.h⟩

/-- The 32-byte digest. -/
def sm3 (message : Bytes) : Bytes :=
  let data := padded .big 64 8 message
  let s := foldBlocks 64 data (compress data)
    ⟨0x7380166f, 0x4914b2b9, 0x172442d7, 0xda8a0600, 0xa96f30bc, 0x163138aa, 0xe38dee4d,
      0xb0fb0e4e⟩
  bytesOf32 .big [s.a, s.b, s.c, s.d, s.e, s.f, s.g, s.h]

@[simp] theorem length_sm3 (message : Bytes) : (sm3 message).length = 32 :=
  length_bytesOf32 ..

end Digest.Sm3

end VerifiedBoot
