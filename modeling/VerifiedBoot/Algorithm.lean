import VerifiedBoot.Digest.Family
import VerifiedBoot.Error

/-!
# Signature algorithms

A vbmeta image is unsigned, or signed over one of two digests with an RSA key of one of three
sizes. The header stores the algorithm as a number.
-/

namespace VerifiedBoot

/-- The sizes of keys that an image can be signed with. -/
inductive KeySize where
  | rsa2048
  | rsa4096
  | rsa8192
  deriving DecidableEq, Repr

/-- The number of bits. -/
def KeySize.bits : KeySize → Nat
  | rsa2048 => 2048
  | rsa4096 => 4096
  | rsa8192 => 8192

/-- How an image is signed. -/
inductive Algorithm where
  | unsigned
  | signed (digest : DigestFamily) (key : KeySize)
  deriving DecidableEq, Repr

namespace Algorithm

/-- All algorithms, in the order of their codes. -/
def all : List Algorithm := [
  unsigned,
  signed .sha256 .rsa2048, signed .sha256 .rsa4096, signed .sha256 .rsa8192,
  signed .sha512 .rsa2048, signed .sha512 .rsa4096, signed .sha512 .rsa8192]

/-- The number that the header stores. -/
def code : Algorithm → Nat
  | unsigned => 0
  | signed .sha256 .rsa2048 => 1
  | signed .sha256 .rsa4096 => 2
  | signed .sha256 .rsa8192 => 3
  | signed .sha512 .rsa2048 => 4
  | signed .sha512 .rsa4096 => 5
  | signed .sha512 .rsa8192 => 6

/-- The algorithm that a number stands for. -/
def ofCode (code : Int) : Except Error Algorithm :=
  match all.find? fun algorithm => (algorithm.code : Int) = code with
  | some algorithm => .ok algorithm
  | none => .error (.malformed (.unknownAlgorithm code))

/-- The name of the algorithm. -/
def name : Algorithm → String
  | unsigned => "NONE"
  | signed digest key =>
    (match digest with | .sha256 => "SHA256" | .sha512 => "SHA512") ++ "_RSA" ++ toString key.bits

/-- The digest that is signed, if any. -/
def digest? : Algorithm → Option DigestFamily
  | unsigned => none
  | signed digest _ => some digest

/-- The bits of the key, zero if there is none. -/
def keyBits : Algorithm → Nat
  | unsigned => 0
  | signed _ key => key.bits

/-- The bytes of the digest, zero if there is none. -/
def hashSize : Algorithm → Nat
  | unsigned => 0
  | signed digest _ => digest.size

/-- The bytes that are set aside for the signature. -/
def signatureSize (algorithm : Algorithm) : Nat :=
  algorithm.keyBits / 8

/-- The bytes of the encoded public key, zero if there is none. -/
def publicKeySize : Algorithm → Nat
  | unsigned => 0
  | signed _ key => 8 + 2 * (key.bits / 8)

/-- The bytes of digest and signature together. -/
def authenticationSize (algorithm : Algorithm) : Nat :=
  algorithm.hashSize + algorithm.signatureSize

/-- The algorithm for a key of another size that keeps the digest; an unsigned image gets
SHA-256. -/
def forKeyBits (current : Algorithm) (bits : Int) : Except Error Algorithm :=
  let digest := current.digest?.getD .sha256
  match all.find? fun algorithm =>
      algorithm.digest? = some digest && (algorithm.keyBits : Int) = bits with
  | some algorithm => .ok algorithm
  | none => .error (.refused (.noAlgorithm digest.name bits))

/-- Every algorithm is read back from its number. -/
@[simp] theorem ofCode_code (algorithm : Algorithm) : ofCode algorithm.code = .ok algorithm := by
  rcases algorithm with _ | ⟨_ | _, _ | _ | _⟩ <;> rfl

end Algorithm

end VerifiedBoot
