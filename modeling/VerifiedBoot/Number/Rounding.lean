import VerifiedBoot.Bytes.Limit

/-!
# Rounding up

Sizes are rounded up to a multiple of another size, and key sizes to a power of two. Both are
defined for all integers; the remainder has the sign of the divisor, so a negative multiple rounds
up to a number that is nearer to zero or below it.
-/

namespace VerifiedBoot

namespace Number

/-- The number of binary digits of the absolute value; zero has none. -/
def bitLength (n : Int) : Nat :=
  if n = 0 then 0 else n.natAbs.log2 + 1

/-- The next multiple of `size` at or above `n`. -/
def roundUp (n size : Int) : Int :=
  if n.fmod size = 0 then n else n + size - n.fmod size

/-- The next multiple of `size`, which is an error for size zero. -/
def roundUp? (n size : Int) : Except Error Int :=
  if size = 0 then .error .divisionByZero else .ok (roundUp n size)

/-- The next power of two at or above a positive number. -/
def roundUpPow2 (n : Int) : Nat :=
  1 <<< bitLength (n - 1)

/-- The most binary digits that a number can have. -/
def maxBits : Nat :=
  30 * 2305843009213693944

/-- The number in `bits / 8` bytes, most significant first, of which only the `bits` low binary
digits are kept. It is an error if those do not fit, which happens where `bits` is no multiple
of 8. -/
def encode (bits value : Int) : Except Error Bytes :=
  if bits < 0 then .error .negativeWidth
  else if maxBits < bits then .error .sizeTooLarge
  else
    let low := (value % (1 <<< bits.toNat : Nat)).toNat
    let width := bits.toNat / 8
    if low < 1 <<< (8 * width) then .ok (Bytes.bigEndian width low) else .error .numberTooWide

end Number

end VerifiedBoot
