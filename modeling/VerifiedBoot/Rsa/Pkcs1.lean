import VerifiedBoot.Digest.Family
import VerifiedBoot.Rsa.Basic

/-!
# Signatures over a digest

The deterministic signature scheme with the padding 00 01 FF … FF 00 before the digest and its
identifier. A signature is as long as the modulus. The identifier may leave out its empty
parameter, which a verifier accepts and a signer never does.
-/

namespace VerifiedBoot

namespace Rsa

/-- The identifier of a digest, with or without its empty parameter. -/
def digestIdentifier : DigestFamily → Bool → Bytes
  | .sha256, true => [0x30, 0x31, 0x30, 0x0d, 0x06, 0x09, 0x60, 0x86, 0x48, 0x01, 0x65, 0x03, 0x04,
      0x02, 0x01, 0x05, 0x00, 0x04, 0x20]
  | .sha256, false => [0x30, 0x2f, 0x30, 0x0b, 0x06, 0x09, 0x60, 0x86, 0x48, 0x01, 0x65, 0x03,
      0x04, 0x02, 0x01, 0x04, 0x20]
  | .sha512, true => [0x30, 0x51, 0x30, 0x0d, 0x06, 0x09, 0x60, 0x86, 0x48, 0x01, 0x65, 0x03, 0x04,
      0x02, 0x03, 0x05, 0x00, 0x04, 0x40]
  | .sha512, false => [0x30, 0x4f, 0x30, 0x0b, 0x06, 0x09, 0x60, 0x86, 0x48, 0x01, 0x65, 0x03,
      0x04, 0x02, 0x03, 0x04, 0x40]

/-- The padded digest in `size` bytes, which is none if the padding would be shorter than eight
bytes. -/
def padDigest (family : DigestFamily) (parameter : Bool) (digest : Bytes) (size : Nat) :
    Option Bytes :=
  let tail := digestIdentifier family parameter ++ digest
  if size < tail.length + 11 then none
  else some ([0x00, 0x01] ++ List.replicate (size - tail.length - 3) 0xFF ++ [0x00] ++ tail)

/-- Signs a digest. -/
def signDigest (key : Key) (family : DigestFamily) (digest : Bytes) : Except Error Bytes :=
  let size := Key.signatureSize key.modulus
  match padDigest family true digest size with
  | none => .error .digestTooLong
  | some padded =>
    match key.privateExponent with
    | none => .error .noPrivatePart
    | some secret =>
      let message := Bytes.toNat padded
      let signature := powMod message secret key.modulus
      if powMod signature key.exponent key.modulus = message then
        .ok (Bytes.bigEndian size signature)
      else .error .signatureFault

/-- Whether a signature over a digest verifies with an odd modulus and a public exponent. -/
def verifyDigest (modulus exponent : Nat) (family : DigestFamily) (digest signature : Bytes) :
    Bool :=
  let size := Key.signatureSize modulus
  let number := Bytes.toNat signature
  if exponent < modulus ∧ Nat.gcd modulus exponent = 1 ∧ signature.length = size ∧
      number < modulus then
    match padDigest family true digest size with
    | none => false
    | some padded =>
      let opened := Bytes.bigEndian size (powMod number exponent modulus)
      opened = padded || padDigest family false digest size = some opened
  else false

/-- A signature is as long as the modulus. -/
theorem length_signDigest {key : Key} {family : DigestFamily} {digest signature : Bytes}
    (h : signDigest key family digest = .ok signature) :
    signature.length = Key.signatureSize key.modulus := by
  simp only [signDigest] at h
  split at h
  · cases h
  · split at h
    · cases h
    · split at h
      · cases h
        exact Bytes.length_bigEndian _ _
      · cases h

/-- Only a signature that is as long as the modulus verifies. -/
theorem length_of_verifyDigest {modulus exponent : Nat} {family : DigestFamily}
    {digest signature : Bytes} (h : verifyDigest modulus exponent family digest signature = true) :
    signature.length = Key.signatureSize modulus := by
  simp only [verifyDigest] at h
  split at h
  · next hfits => exact hfits.2.2.1
  · cases h

end Rsa

end VerifiedBoot
