import VerifiedBoot.Bytes.Basic

/-!
# Reading text that may be ill formed

Well-formed UTF-8 is read as it is. Where it is not well formed, the replacement character U+FFFD
stands for each maximal part of a sequence: the longest run of bytes that could still have been
continued to a character, or the one byte that cannot begin any.
-/

namespace VerifiedBoot

namespace Text

/-- What a first byte above 0x7F announces. -/
structure Lead where
  /-- The number of bytes that follow. -/
  tails : Nat
  /-- The least value of the next byte. -/
  low : Nat
  /-- The greatest value of the next byte. -/
  high : Nat
  /-- The bits of the code point that the first byte holds. -/
  bits : Nat

/-- The sequence that a byte above 0x7F begins, if any. Overlong forms, surrogates and numbers
above U+10FFFF are shut out by the range of the second byte. -/
def lead? (first : Nat) : Option Lead :=
  if first < 0xC2 then none
  else if first < 0xE0 then some ⟨1, 0x80, 0xBF, first % 32⟩
  else if first = 0xE0 then some ⟨2, 0xA0, 0xBF, 0⟩
  else if first = 0xED then some ⟨2, 0x80, 0x9F, 13⟩
  else if first < 0xF0 then some ⟨2, 0x80, 0xBF, first % 16⟩
  else if first = 0xF0 then some ⟨3, 0x90, 0xBF, 0⟩
  else if first < 0xF4 then some ⟨3, 0x80, 0xBF, first % 8⟩
  else if first = 0xF4 then some ⟨3, 0x80, 0x8F, 4⟩
  else none

/-- Reads the rest of a sequence that owes `tails` bytes: the character, or none if the sequence
breaks off, and the bytes after it. -/
def takeTails : Nat → Nat → Nat → Nat → Bytes → Option Char × Bytes
  | 0, _, _, code, rest => (some (Char.ofNat code), rest)
  | _ + 1, _, _, _, [] => (none, [])
  | tails + 1, low, high, code, b :: rest =>
    if low ≤ b.toNat && b.toNat ≤ high then
      takeTails tails 0x80 0xBF (code * 64 + b.toNat % 64) rest
    else (none, b :: rest)

/-- No byte comes back that was not there. -/
theorem length_takeTails_le (tails low high code : Nat) (data : Bytes) :
    (takeTails tails low high code data).2.length ≤ data.length := by
  induction data generalizing tails low high code with
  | nil => cases tails <;> simp [takeTails]
  | cons b rest ih =>
    cases tails with
    | zero => simp [takeTails]
    | succ tails =>
      rw [takeTails]
      split
      · exact Nat.le_succ_of_le (ih ..)
      · simp

/-- The character at the head of the data, or none for an ill-formed part, and what follows. -/
def takeChar (first : UInt8) (rest : Bytes) : Option Char × Bytes :=
  if first.toNat < 0x80 then (some (Char.ofNat first.toNat), rest)
  else match lead? first.toNat with
    | none => (none, rest)
    | some lead => takeTails lead.tails lead.low lead.high lead.bits rest

/-- What follows a character is no longer than what followed its first byte. -/
theorem length_takeChar_le (first : UInt8) (rest : Bytes) :
    (takeChar first rest).2.length ≤ rest.length := by
  simp only [takeChar]
  split
  · exact Nat.le_refl _
  · split
    · exact Nat.le_refl _
    · exact length_takeTails_le ..

/-- The characters of the data, with U+FFFD for each ill-formed part. -/
def charsLossy : Bytes → List Char
  | [] => []
  | first :: rest =>
    (takeChar first rest).1.getD '\uFFFD' :: charsLossy (takeChar first rest).2
termination_by data => data.length
decreasing_by exact Nat.lt_succ_of_le (length_takeChar_le first rest)

/-- The text of the data, with U+FFFD for each ill-formed part. -/
def lossy (data : Bytes) : String :=
  String.ofList (charsLossy data)

end Text

end VerifiedBoot
