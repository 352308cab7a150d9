import VerifiedBoot.Proofs.Layout
import VerifiedBoot.Proofs.Rounding
import VerifiedBoot.Suite

/-!
# What is signed verifies

The signer opens each signature that it makes and fails if that does not give the padded digest
again. So whatever the private exponent is, a signature that was made verifies with the public half
of the key, as long as the modulus has no divisor in common with the exponent.
-/

namespace VerifiedBoot

namespace Rsa

/-- A power is a remainder of the modulus. -/
theorem powMod_lt (base exponent : Nat) {modulus : Nat} (h : 0 < modulus) :
    powMod base exponent modulus < modulus := by
  fun_induction powMod base exponent modulus with
  | case1 => exact Nat.mod_lt _ h
  | case2 => exact Nat.mod_lt _ h
  | case3 base exponent _ _ _ ih => exact ih

/-- A padded digest has the size that it was padded to, and there is room for the padding. -/
theorem length_padDigest {family : DigestFamily} {parameter : Bool} {digest padded : Bytes}
    {size : Nat} (h : padDigest family parameter digest size = some padded) :
    padded.length = size ∧ 11 ≤ size := by
  simp only [padDigest] at h
  split at h
  · cases h
  · next hroom =>
    obtain rfl := Option.some.inj h
    simp only [List.length_append, List.length_replicate, List.length_cons,
      List.length_nil] at hroom ⊢
    omega

/-- A padded digest begins with a zero byte and a one. -/
theorem exists_of_padDigest {family : DigestFamily} {parameter : Bool} {digest padded : Bytes}
    {size : Nat} (h : padDigest family parameter digest size = some padded) :
    ∃ rest, padded = 0 :: 1 :: rest := by
  simp only [padDigest] at h
  split at h
  · cases h
  · exact ⟨_, (Option.some.inj h).symm⟩

/-- A signature that was made is the bytes of a number that opens to the padded digest. -/
theorem signDigest_eq_ok {key : Key} {family : DigestFamily} {digest signature : Bytes}
    (h : signDigest key family digest = .ok signature) :
    ∃ padded secret, padDigest family true digest (Key.signatureSize key.modulus) = some padded ∧
      powMod (powMod (Bytes.toNat padded) secret key.modulus) key.exponent key.modulus =
        Bytes.toNat padded ∧
      signature = Bytes.bigEndian (Key.signatureSize key.modulus)
        (powMod (Bytes.toNat padded) secret key.modulus) := by
  simp only [signDigest] at h
  split at h
  · cases h
  · next padded hpadded =>
    split at h
    · cases h
    · next secret _ =>
      split at h
      · next hopened => exact ⟨padded, secret, hpadded, hopened, (Except.ok.inj h).symm⟩
      · cases h

theorem lt_shiftLeft_signatureSize (modulus : Nat) :
    modulus < 1 <<< (8 * Key.signatureSize modulus) := by
  refine Nat.lt_of_lt_of_le (Number.lt_shiftLeft_bitLength modulus) ?_
  rw [Nat.one_shiftLeft, Nat.one_shiftLeft, Key.signatureSize]
  exact Nat.pow_le_pow_right (by decide) (by omega)

/-- A modulus whose signatures have room for the padding is larger than the public exponent. -/
theorem exponent_lt_of_signatureSize {modulus : Nat} (h : 11 ≤ Key.signatureSize modulus) :
    65537 < modulus := by
  unfold Key.signatureSize at h
  have hbits : 17 ≤ Number.bitLength modulus - 1 := by omega
  -- A modulus of 0 has no bits, so there would be no room for the padding.
  have hpos : 0 < modulus := by
    by_contra hzero
    rw [show modulus = 0 by omega] at hbits
    exact absurd hbits (by decide)
  have hle := Number.shiftLeft_bitLength_le hpos
  rw [Nat.one_shiftLeft] at hle
  have hpow := Nat.pow_le_pow_right (show 0 < 2 by decide) hbits
  omega

/-- A signature that was made over a digest verifies. -/
theorem verifyDigest_signDigest {key : Key} {family : DigestFamily} {digest signature : Bytes}
    (hexponent : key.exponent = 65537) (hgcd : Nat.gcd key.modulus 65537 = 1)
    (h : signDigest key family digest = .ok signature) :
    verifyDigest key.modulus 65537 family digest signature = true := by
  obtain ⟨padded, secret, hpadded, hopened, hsignature⟩ := signDigest_eq_ok h
  obtain ⟨hlength, hroom⟩ := length_padDigest hpadded
  have hlarge := exponent_lt_of_signatureSize hroom
  have hlt := powMod_lt (Bytes.toNat padded) secret (show 0 < key.modulus by omega)
  have hnumber : Bytes.toNat signature = powMod (Bytes.toNat padded) secret key.modulus := by
    rw [hsignature]
    exact Bytes.toNat_bigEndian_of_lt (Nat.lt_trans hlt (lt_shiftLeft_signatureSize _))
  -- To open the signature gives the padded digest again, with its leading zero.
  have hopens : Bytes.bigEndian (Key.signatureSize key.modulus)
      (powMod (Bytes.toNat signature) 65537 key.modulus) = padded := by
    rw [hnumber, ← hexponent, hopened, ← hlength]
    exact Bytes.bigEndian_toNat padded
  rw [verifyDigest, if_pos ⟨hlarge, hgcd, length_signDigest h, hnumber ▸ hlt⟩, hpadded]
  simp only [hopens, decide_true, Bool.true_or]

end Rsa

namespace Suite

/-- Whether what a key signs verifies with its public half. -/
def Accepts (suite : Suite) (signer : Rsa.Key) : Prop :=
  ∀ {publicKey family message signature}, PublicKey.ofKey signer = .ok publicKey →
    suite.sign signer family message = .ok signature →
    suite.verify publicKey family message signature = true

theorem sign_ofDigests {digest : DigestFamily → Bytes → Bytes}
    {length_digest : ∀ family message, (digest family message).length = family.size}
    (key : Rsa.Key) (family : DigestFamily) (message : Bytes) :
    (ofDigests digest length_digest).sign key family message =
      Rsa.signDigest key family (digest family message) := rfl

theorem verify_ofDigests {digest : DigestFamily → Bytes → Bytes}
    {length_digest : ∀ family message, (digest family message).length = family.size}
    (key : PublicKey) (family : DigestFamily) (message signature : Bytes) :
    (ofDigests digest length_digest).verify key family message signature =
      Rsa.verifyDigest key.modulus PublicKey.exponent family (digest family message) signature :=
  rfl

/-- What a key signs verifies with its public half, over whatever digests, unless the modulus has
the exponent as a divisor. -/
theorem accepts_ofDigests {digest : DigestFamily → Bytes → Bytes}
    {length_digest : ∀ family message, (digest family message).length = family.size}
    {signer : Rsa.Key} (h : Nat.gcd signer.modulus 65537 = 1) :
    (ofDigests digest length_digest).Accepts signer := by
  intro publicKey family message signature hkey hsign
  unfold PublicKey.ofKey PublicKey.ofNumbers at hkey
  split at hkey
  · cases hkey
  · next hexponent =>
    split at hkey
    · obtain rfl := Except.ok.inj hkey
      have hexponent : signer.exponent = 65537 := Int.ofNat_inj.1 (not_not.1 hexponent)
      exact Rsa.verifyDigest_signDigest hexponent h hsign
    · cases hkey

end Suite

end VerifiedBoot
