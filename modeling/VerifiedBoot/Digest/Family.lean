import VerifiedBoot.Digest.Sha256
import VerifiedBoot.Digest.Sha512

/-!
# The digests that are signed

A vbmeta image is signed over one of two digests.
-/

namespace VerifiedBoot

/-- The digest that a signature is made over. -/
inductive DigestFamily where
  | sha256
  | sha512
  deriving DecidableEq, Repr

namespace DigestFamily

/-- The name of the digest in messages. -/
def name : DigestFamily → String
  | sha256 => "sha256"
  | sha512 => "sha512"

/-- The bytes of a digest. -/
def size : DigestFamily → Nat
  | sha256 => 32
  | sha512 => 64

/-- The digest of a message. -/
def digest : DigestFamily → Bytes → Bytes
  | sha256 => Digest.Sha256.sha256
  | sha512 => Digest.Sha512.sha512

@[simp] theorem length_digest (family : DigestFamily) (message : Bytes) :
    (family.digest message).length = family.size := by
  cases family <;> simp [digest, size]

end DigestFamily

end VerifiedBoot
