import VerifiedBoot.Digest.Md5
import VerifiedBoot.Digest.Sha1
import VerifiedBoot.Digest.Sha256
import VerifiedBoot.Digest.Sha512
import VerifiedBoot.Digest.Keccak
import VerifiedBoot.Digest.Blake2
import VerifiedBoot.Digest.Ripemd160
import VerifiedBoot.Digest.Sm3

/-!
# Digests by name

A hash descriptor names its digest with free text. A name means a digest of a fixed length, an
extendable-output function that has no digest of its own, or nothing.

Some names are known in one spelling only. The others are known in any mix of cases: the short
names, those with a hyphen, and the registered identifiers.
-/

namespace VerifiedBoot

/-- What the name of a hash algorithm stands for. -/
inductive NamedDigest where
  | unsupported
  /-- An extendable-output function: known, but it cannot be asked for a plain digest. -/
  | extendable
  | plain (digest : Bytes → Bytes)

namespace NamedDigest

/-- The names in lower case, ASCII letters only. -/
private def lower (name : String) : String :=
  String.ofList (name.toList.map fun c =>
    if 'A' ≤ c ∧ c ≤ 'Z' then Char.ofNat (c.toNat + 32) else c)

/-- The digests that are known in one spelling only. -/
def oneSpelling? : String → Option NamedDigest
  | "sha512_224" | "SHA512_224" => some (plain Digest.Sha512.sha512Short224)
  | "sha512_256" | "SHA512_256" => some (plain Digest.Sha512.sha512Short256)
  | "sha3_224" => some (plain (Digest.Keccak.sha3 28))
  | "sha3_256" => some (plain (Digest.Keccak.sha3 32))
  | "sha3_384" => some (plain (Digest.Keccak.sha3 48))
  | "sha3_512" => some (plain (Digest.Keccak.sha3 64))
  | "blake2b" => some (plain Digest.Blake2.blake2b)
  | "blake2s" => some (plain Digest.Blake2.blake2s)
  | "shake_128" | "shake_256" => some extendable
  | _ => none

/-- The digests whose name is given in lower case. One of them is two digests in a row, and one is
empty. -/
def folded : String → NamedDigest
  | "md5" | "ssl3-md5" | "1.2.840.113549.2.5" => plain Digest.Md5.md5
  | "sha1" | "sha-1" | "ssl3-sha1" | "1.3.14.3.2.26" => plain Digest.Sha1.sha1
  | "md5-sha1" => plain fun message => Digest.Md5.md5 message ++ Digest.Sha1.sha1 message
  | "sha224" | "sha-224" | "sha2-224" | "2.16.840.1.101.3.4.2.4" => plain Digest.Sha256.sha224
  | "sha256" | "sha-256" | "sha2-256" | "2.16.840.1.101.3.4.2.1" => plain Digest.Sha256.sha256
  | "sha384" | "sha-384" | "sha2-384" | "2.16.840.1.101.3.4.2.2" => plain Digest.Sha512.sha384
  | "sha512" | "sha-512" | "sha2-512" | "2.16.840.1.101.3.4.2.3" => plain Digest.Sha512.sha512
  | "sha512-224" | "sha-512/224" | "sha2-512/224" | "2.16.840.1.101.3.4.2.5" =>
    plain Digest.Sha512.sha512Short224
  | "sha512-256" | "sha-512/256" | "sha2-512/256" | "2.16.840.1.101.3.4.2.6" =>
    plain Digest.Sha512.sha512Short256
  | "sha3-224" | "2.16.840.1.101.3.4.2.7" => plain (Digest.Keccak.sha3 28)
  | "sha3-256" | "2.16.840.1.101.3.4.2.8" => plain (Digest.Keccak.sha3 32)
  | "sha3-384" | "2.16.840.1.101.3.4.2.9" => plain (Digest.Keccak.sha3 48)
  | "sha3-512" | "2.16.840.1.101.3.4.2.10" => plain (Digest.Keccak.sha3 64)
  | "blake2b512" | "blake2b-512" | "1.3.6.1.4.1.1722.12.2.1.16" => plain Digest.Blake2.blake2b
  | "blake2s256" | "blake2s-256" | "1.3.6.1.4.1.1722.12.2.2.8" => plain Digest.Blake2.blake2s
  | "ripemd160" | "ripemd-160" | "ripemd" | "rmd160" | "1.3.36.3.2.1" =>
    plain Digest.Ripemd160.ripemd160
  | "sm3" | "1.2.156.10197.1.401" => plain Digest.Sm3.sm3
  | "null" => plain fun _ => []
  | "shake128" | "shake-128" | "2.16.840.1.101.3.4.2.11"
  | "shake256" | "shake-256" | "2.16.840.1.101.3.4.2.12"
  | "keccak-kmac128" | "keccak-kmac-128" | "keccak-kmac256" | "keccak-kmac-256" => extendable
  | _ => unsupported

/-- What a name stands for. -/
def find (name : String) : NamedDigest :=
  (oneSpelling? name).getD (folded (lower name))

/-- The bytes of the longest digest. -/
def maxSize : Nat :=
  64

/-- A digest that is known in one spelling is no longer than the longest one. -/
theorem length_oneSpelling {name : String} {digest : Bytes → Bytes} (message : Bytes)
    (h : oneSpelling? name = some (plain digest)) : (digest message).length ≤ maxSize := by
  unfold oneSpelling? at h
  split at h <;> cases h
  all_goals first
    | exact Nat.le_trans (Digest.Keccak.length_sha3_le _ _) (by decide)
    | simp [maxSize]

/-- A digest that is known in any spelling is no longer than the longest one. -/
theorem length_folded {name : String} {digest : Bytes → Bytes} (message : Bytes)
    (h : folded name = plain digest) : (digest message).length ≤ maxSize := by
  unfold folded at h
  split at h <;> cases h
  all_goals first
    | exact Nat.le_trans (Digest.Keccak.length_sha3_le _ _) (by decide)
    | simp [maxSize]

/-- A digest is no longer than the longest one. -/
theorem length_find {name : String} {digest : Bytes → Bytes} (message : Bytes)
    (h : find name = plain digest) : (digest message).length ≤ maxSize := by
  unfold find at h
  cases hname : oneSpelling? name with
  | none =>
    rw [hname] at h
    exact length_folded message h
  | some found =>
    rw [hname] at h
    cases h
    exact length_oneSpelling message hname

end NamedDigest

end VerifiedBoot
