import VerifiedBoot.Bytes.Basic

/-!
# Base64

Decoding of text in groups of four characters. Characters outside the alphabet are skipped, and a
group that is completed by padding ends the text.
-/

namespace VerifiedBoot

namespace Text

/-- The six bits of a character of the alphabet. -/
def sextet? (c : UInt8) : Option Nat :=
  let n := c.toNat
  if 65 ≤ n ∧ n ≤ 90 then some (n - 65)
  else if 97 ≤ n ∧ n ≤ 122 then some (n - 71)
  else if 48 ≤ n ∧ n ≤ 57 then some (n + 4)
  else if n = 43 then some 62
  else if n = 47 then some 63
  else none

/-- Decodes from within a group: `filled` characters of it have been read, `held` are the bits
that are not yet written, and `pads` padding characters were read since. The bytes so far are in
reverse. -/
def decodeGroups : Bytes → (filled held pads : Nat) → Bytes → Option Bytes
  | [], filled, _, _, done => if filled = 0 then some done.reverse else none
  | c :: rest, filled, held, pads, done =>
    if c = 61 then
      if 2 ≤ filled then
        if 4 ≤ filled + (pads + 1) then some done.reverse
        else decodeGroups rest filled held (pads + 1) done
      else decodeGroups rest filled held pads done
    else match sextet? c with
      | none => decodeGroups rest filled held pads done
      | some bits =>
        match filled with
        | 0 => decodeGroups rest 1 bits 0 done
        | 1 => decodeGroups rest 2 (bits % 16) 0 (UInt8.ofNat (held * 4 + bits / 16) :: done)
        | 2 => decodeGroups rest 3 (bits % 4) 0 (UInt8.ofNat (held * 16 + bits / 4) :: done)
        | _ => decodeGroups rest 0 0 0 (UInt8.ofNat (held * 64 + bits) :: done)

/-- The bytes that the text stands for; none if a group is left open. -/
def base64? (text : Bytes) : Option Bytes :=
  decodeGroups text 0 0 0 []

end Text

end VerifiedBoot
