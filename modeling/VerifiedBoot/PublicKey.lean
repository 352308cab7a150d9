import VerifiedBoot.Bytes.Layout
import VerifiedBoot.Digest.Sha256
import VerifiedBoot.Rsa.Basic

/-!
# Public keys

A public key is an odd modulus above 1; the exponent is always 65537. Its size is the bit length
of the modulus rounded up to a power of two. The encoded form is the size in bits, the negative
inverse of the modulus modulo 2^32, the modulus, and the square of a power of two modulo the
modulus: numbers that spare a boot loader the set-up of Montgomery multiplication.
-/

namespace VerifiedBoot

/-- A public key that an image may embed. -/
structure PublicKey where
  modulus : Nat
  one_lt : 1 < modulus
  odd : modulus % 2 = 1
  deriving DecidableEq, Repr

namespace PublicKey

/-- The only public exponent in use. -/
def exponent : Nat := 65537

/-- The key of a modulus and an exponent, if they are those of a public key. -/
def ofNumbers (modulus exponent : Int) : Except Error PublicKey :=
  if exponent ≠ PublicKey.exponent then .error (.refused .keyExponent)
  else if h : 1 < modulus.toNat ∧ modulus.toNat % 2 = 1 then .ok ⟨modulus.toNat, h.1, h.2⟩
  else .error (.refused .keyModulus)

/-- The public half of an RSA key. -/
def ofKey (key : Rsa.Key) : Except Error PublicKey :=
  ofNumbers key.modulus key.exponent

/-- The size of the key: the bits of the modulus, rounded up to a power of two. -/
def bits (key : PublicKey) : Nat :=
  Number.roundUpPow2 (Number.bitLength key.modulus)

/-- The two words in front of an encoded key. -/
def layout : Layout :=
  [word32, word32]

/-- The number of values of a word, 2^32. -/
def wordSize : Int :=
  0x100000000

/-- The bytes of an encoded key; a key of fewer than eight bits has no encoding. -/
def encode (key : PublicKey) : Except Error Bytes := do
  let inverse ← Number.inverse? key.modulus wordSize
  let radix := 1 <<< Number.bitLength key.modulus
  let head ← layout.pack ((key.bits : Int), (wordSize - inverse.getD 0) % wordSize, ())
  let modulus ← Number.encode key.bits key.modulus
  let square ← Number.encode key.bits (radix * radix % key.modulus : Nat)
  return head ++ modulus ++ square

/-- The key that a blob encodes. Only the size and the modulus are looked at. -/
def decode (data : Bytes) : Except Error PublicKey := do
  let (size, _) ← layout.unpack data
  let bits : Int ← checkUnsigned size 32 "key_num_bits"
  if bits = 0 ∨ bits % 8 ≠ 0 then
    throw (.malformed (.keySize bits))
  let size := bits.toNat / 8
  if data.length ≠ 8 + 2 * size then
    throw (.malformed (.keyLength data.length (8 + 2 * size)))
  let modulus := Bytes.toNat (Bytes.slice data 8 size)
  if modulus ≤ 1 ∨ (Number.roundUpPow2 (Number.bitLength modulus) : Int) ≠ bits then
    throw (.malformed .keyModulusSize)
  if modulus % 2 = 0 then
    throw (.malformed .keyModulusEven)
  ofNumbers modulus exponent

/-- The SHA-256 digest of the encoded key, in hexadecimal. -/
def fingerprint (key : PublicKey) : Except Error String := do
  return Bytes.hex (Digest.Sha256.sha256 (← key.encode))

/-- How a key is shown: its size and the first digits of its fingerprint. -/
def toText (key : PublicKey) : Except Error String := do
  let digits := String.ofList ((← key.fingerprint).toList.take 16)
  return s!"AvbPublicKey(bits={key.bits}, sha256={digits})"

end PublicKey

end VerifiedBoot
