import VerifiedBoot.Number.Rounding
import VerifiedBoot.Number.Inverse

/-!
# RSA keys and the RSA map

A key is a modulus with a public exponent, and a private exponent if it can sign. The map raises a
number to an exponent modulo the modulus, by repeated squaring.
-/

namespace VerifiedBoot

namespace Rsa

/-- An RSA key. -/
structure Key where
  modulus : Nat
  exponent : Nat
  privateExponent : Option Nat
  deriving DecidableEq, Repr

namespace Key

/-- Whether the key can sign. -/
def isPrivate (key : Key) : Bool :=
  key.privateExponent.isSome

/-- The number of bits of the modulus. -/
def modulusBits (key : Key) : Nat :=
  Number.bitLength key.modulus

/-- The bytes of a signature. -/
def signatureSize (modulus : Nat) : Nat :=
  (Number.bitLength modulus + 7) / 8

/-- The private key of two primes: its private exponent inverts the public one modulo
`(p - 1) * (q - 1)`. The first prime has to have an inverse modulo the second one as well. -/
def ofPrimes (p q exponent : Nat) : Except Error Key := do
  match ← Number.inverse? exponent ((p - 1) * (q - 1) : Nat), ← Number.inverse? p q with
  | some secret, some _ => return ⟨p * q, exponent, some secret.toNat⟩
  | _, _ => throw .noInverse

end Key

/-- `base` to the power `exponent`, modulo `modulus`. -/
def powMod (base exponent modulus : Nat) : Nat :=
  if exponent = 0 then 1 % modulus
  else
    let half := powMod (base * base % modulus) (exponent / 2) modulus
    if exponent % 2 = 1 then base * half % modulus else half
termination_by exponent
decreasing_by omega

end Rsa

end VerifiedBoot
