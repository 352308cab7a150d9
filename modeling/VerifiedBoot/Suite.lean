import VerifiedBoot.Algorithm
import VerifiedBoot.Digest.Named
import VerifiedBoot.PublicKey
import VerifiedBoot.Rsa.Pkcs1

/-!
# Cryptographic suites

Verification and repair use cryptography through four operations: the two digests that are signed,
the digests that hash descriptors name, signing, and checking a signature. A suite gives all four,
and the room that the machine has for a byte string, so that statements about images, chains and
repairs can say which of its properties they rest on. The program runs with `Suite.standard`.
-/

namespace VerifiedBoot

/-- The cryptographic operations, with what is known of the sizes of their results, and the room
that there is for what is written with them. -/
structure Suite where
  /-- The digest of a message in a family. -/
  digest : DigestFamily → Bytes → Bytes
  /-- A digest has the size of its family. -/
  length_digest : ∀ family message, (digest family message).length = family.size
  /-- What the name of a hash algorithm stands for. -/
  named : String → NamedDigest
  /-- A named digest is no longer than the longest one. -/
  length_named : ∀ {name digest} (message : Bytes), named name = .plain digest →
    (digest message).length ≤ NamedDigest.maxSize
  /-- The signature over the digest of a message. -/
  sign : Rsa.Key → DigestFamily → Bytes → Except Error Bytes
  /-- A signature is as long as the modulus. -/
  length_sign : ∀ {key family message signature}, sign key family message = .ok signature →
    signature.length = Rsa.Key.signatureSize key.modulus
  /-- Whether a signature over the digest of a message verifies. -/
  verify : PublicKey → DigestFamily → Bytes → Bytes → Bool
  /-- Only a signature that is as long as the modulus verifies. -/
  length_of_verify : ∀ {key family message signature}, verify key family message signature = true →
    signature.length = Rsa.Key.signatureSize key.modulus
  /-- The length of the longest byte string that memory lasts for. -/
  room : Nat

namespace Suite

/-- RSA with deterministic padding over given digests, and all digests that have a name. Memory
lasts for every byte string that can be addressed. -/
def ofDigests (digest : DigestFamily → Bytes → Bytes)
    (length_digest : ∀ family message, (digest family message).length = family.size) : Suite where
  digest := digest
  length_digest := length_digest
  named := NamedDigest.find
  length_named := NamedDigest.length_find
  sign key family message := Rsa.signDigest key family (digest family message)
  length_sign := Rsa.length_signDigest
  verify key family message signature :=
    Rsa.verifyDigest key.modulus PublicKey.exponent family (digest family message) signature
  length_of_verify := Rsa.length_of_verifyDigest
  room := Bytes.maxSize

/-- The suite of the program: the signed digests are SHA-2. -/
def standard : Suite :=
  ofDigests DigestFamily.digest DigestFamily.length_digest

end Suite

end VerifiedBoot
