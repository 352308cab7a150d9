import Mathlib.FieldTheory.Finite.Basic
import Mathlib.NumberTheory.LucasPrimality
import VerifiedBoot.KeyPair
import VerifiedBoot.Proofs.Inverse
import VerifiedBoot.Proofs.PublicKey
import VerifiedBoot.Proofs.Signature

/-!
# Consistent keys sign

A private key of two primes, whose private exponent inverts the public one, takes every number back
to itself. So the check that a signer makes of its own signature is always passed, and a key that
has room for the padding signs every message.
-/

namespace VerifiedBoot

namespace Rsa

/-- Repeated squaring gives the power. -/
theorem powMod_eq (base exponent modulus : Nat) :
    powMod base exponent modulus = base ^ exponent % modulus := by
  fun_induction powMod base exponent modulus with
  | case1 => rw [Nat.pow_zero]
  | case2 base exponent hexponent half hodd ih =>
    -- An odd exponent is twice its half and one.
    have hsplit : exponent = 2 * (exponent / 2) + 1 := by omega
    rw [show half = (base * base % modulus) ^ (exponent / 2) % modulus from ih, Nat.mul_mod,
      Nat.mod_mod, ← Nat.mul_mod, Nat.mul_mod, ← Nat.pow_mod, ← Nat.mul_mod, ← Nat.pow_two,
      ← Nat.pow_mul, ← Nat.pow_succ', Nat.succ_eq_add_one, ← hsplit]
  | case3 base exponent hexponent half heven ih =>
    have hsplit : exponent = 2 * (exponent / 2) := by omega
    rw [show half = (base * base % modulus) ^ (exponent / 2) % modulus from ih, ← Nat.pow_mod,
      ← Nat.pow_two, ← Nat.pow_mul, ← hsplit]

/-- Zeros never verify, since they open to zeros and a padded digest has a one. -/
theorem verifyDigest_zeros {exponent : Nat} (h : exponent ≠ 0) (modulus : Nat)
    (family : DigestFamily) (digest : Bytes) (count : Nat) :
    verifyDigest modulus exponent family digest (Bytes.zeros count) = false := by
  have hopened (size : Nat) :
      Bytes.bigEndian size (powMod (Bytes.toNat (Bytes.zeros count)) exponent modulus) =
        Bytes.zeros size := by
    rw [Bytes.toNat_zeros, powMod_eq, Nat.zero_pow (Nat.pos_of_ne_zero h), Nat.zero_mod,
      Bytes.bigEndian_zero]
  have hpadded {parameter : Bool} {size : Nat} :
      padDigest family parameter digest size ≠ some (Bytes.zeros size) := by
    intro hpad
    obtain ⟨rest, hrest⟩ := exists_of_padDigest hpad
    have hone : (1 : UInt8) ∈ Bytes.zeros size := hrest ▸ .tail _ (.head _)
    exact absurd (List.eq_of_mem_replicate hone) (by decide)
  simp only [verifyDigest, hopened]
  split
  · split
    · rfl
    · next padded hpad =>
      rw [Bool.or_eq_false_iff, decide_eq_false_iff_not, decide_eq_false_iff_not]
      refine ⟨?_, hpadded⟩
      rintro rfl
      exact hpadded hpad
  · rfl

/-- To raise a number to a power that is one more than a multiple of `p - 1` changes nothing modulo
a prime `p`. -/
theorem pow_modEq_of_prime {p k : Nat} (hp : p.Prime) (hpos : 0 < k) (hk : k ≡ 1 [MOD p - 1])
    (m : Nat) : m ^ k ≡ m [MOD p] := by
  by_cases hdvd : p ∣ m
  · have hzero : m ≡ 0 [MOD p] := Nat.modEq_zero_iff_dvd.2 hdvd
    have hpow : m ^ k ≡ 0 [MOD p] := Nat.modEq_zero_iff_dvd.2 (dvd_pow hdvd hpos.ne')
    exact hpow.trans hzero.symm
  · obtain ⟨t, ht⟩ := (Nat.modEq_iff_dvd' hpos).1 hk.symm
    have hcoprime : Nat.Coprime m p := ((Nat.Prime.coprime_iff_not_dvd hp).2 hdvd).symm
    have hfermat := Nat.ModEq.pow_totient hcoprime
    rw [Nat.totient_prime hp] at hfermat
    calc m ^ k = (m ^ (p - 1)) ^ t * m := by
          rw [← Nat.pow_mul, ← ht, ← Nat.pow_succ, Nat.succ_eq_add_one, Nat.sub_add_cancel hpos]
      _ ≡ 1 ^ t * m [MOD p] := (hfermat.pow t).mul_right m
      _ = m := by rw [Nat.one_pow, Nat.one_mul]

/-- Whether a key is the private key of two primes: its private exponent inverts the public one
modulo both primes less one. -/
structure Key.Consistent (key : Key) : Prop where
  split : ∃ p q secret : Nat, p.Prime ∧ q.Prime ∧ p ≠ q ∧ key.modulus = p * q ∧
    key.privateExponent = some secret ∧ key.exponent * secret ≡ 1 [MOD p - 1] ∧
    key.exponent * secret ≡ 1 [MOD q - 1]

/-- **The key that is made of two primes is consistent.** -/
theorem Key.consistent_ofPrimes {p q exponent : Nat} {key : Key} (hp : p.Prime) (hq : q.Prime)
    (h : Key.ofPrimes p q exponent = .ok key) : key.Consistent := by
  obtain ⟨secret, hsecret, h₁⟩ := Outcome.bind_eq_ok.1 h
  obtain ⟨second, hsecond, h₂⟩ := Outcome.bind_eq_ok.1 h₁
  rcases secret with _ | secret
  · cases h₂
  rcases second with _ | second
  · cases h₂
  obtain rfl := Except.ok.inj h₂
  have hpred : 0 < p - 1 := Nat.sub_pos_of_lt hp.one_lt
  have hpred' : 0 < q - 1 := Nat.sub_pos_of_lt hq.one_lt
  have hunits : 0 < (p - 1) * (q - 1) := Nat.mul_pos hpred hpred'
  obtain ⟨-, hnonneg, hinverse⟩ := Number.inverse_eq_some (Int.ofNat_lt.2 hunits) hsecret
  obtain ⟨hcoprime, -⟩ := Number.inverse_eq_some (Int.ofNat_lt.2 hq.pos) hsecond
  have hne : p ≠ q := (Nat.coprime_primes hp hq).1 hcoprime
  -- What inverts the exponent modulo the product does so modulo both factors.
  have hproduct : exponent * secret.toNat ≡ 1 [MOD (p - 1) * (q - 1)] := by
    rw [← Int.toNat_of_nonneg hnonneg] at hinverse
    exact Int.natCast_modEq_iff.1 hinverse
  exact ⟨p, q, secret.toNat, hp, hq, hne, rfl, rfl, hproduct.of_mul_right _,
    hproduct.of_mul_left _⟩

/-- The private exponent of a consistent key takes a number to one that opens to it. -/
theorem Key.Consistent.exists_secret {key : Key} (h : key.Consistent) (hodd : key.modulus % 2 = 1) :
    ∃ secret, key.privateExponent = some secret ∧ ∀ m, m < key.modulus →
      powMod (powMod m secret key.modulus) key.exponent key.modulus = m := by
  obtain ⟨p, q, secret, hp, hq, hne, hmodulus, hsecret, hinverse, hinverse'⟩ := h.split
  refine ⟨secret, hsecret, fun m hm => ?_⟩
  have hpodd : p ≠ 2 := by
    rintro rfl
    omega
  have hlarge := hp.two_le
  -- If the product were zero, one would be congruent to zero modulo `p - 1`, and `p` would be two.
  have hpos : 0 < key.exponent * secret := by
    by_contra hzero
    rw [show key.exponent * secret = 0 by omega] at hinverse
    have hdvd : p - 1 ∣ 1 := (Nat.modEq_zero_iff_dvd.1 hinverse.symm)
    have hone := Nat.le_of_dvd Nat.one_pos hdvd
    omega
  have hboth : m ^ (key.exponent * secret) ≡ m [MOD p * q] :=
    (Nat.modEq_and_modEq_iff_modEq_mul ((Nat.coprime_primes hp hq).2 hne)).1
      ⟨pow_modEq_of_prime hp hpos hinverse m, pow_modEq_of_prime hq hpos hinverse' m⟩
  rw [← hmodulus, Nat.mul_comm, Nat.pow_mul] at hboth
  rw [powMod_eq, powMod_eq, ← Nat.pow_mod, show (m ^ secret) ^ key.exponent % key.modulus =
    m % key.modulus from hboth, Nat.mod_eq_of_lt hm]

/-- The number of a padded digest is below every modulus of its size. -/
theorem toNat_lt_of_padDigest {family : DigestFamily} {parameter : Bool} {digest padded : Bytes}
    {modulus : Nat}
    (h : padDigest family parameter digest (Key.signatureSize modulus) = some padded) :
    Bytes.toNat padded < modulus := by
  obtain ⟨hlength, hroom⟩ := length_padDigest h
  obtain ⟨rest, rfl⟩ := exists_of_padDigest h
  have hlarge := exponent_lt_of_signatureSize hroom
  have hle := Number.shiftLeft_bitLength_le (show 0 < modulus by omega)
  have hlt := Bytes.toNat_lt (1 :: rest)
  -- The zero byte counts for nothing, so the number has a byte less than the modulus.
  have hbits : 8 * (1 :: rest).length ≤ Number.bitLength modulus - 1 := by
    rw [List.length_cons] at hlength
    unfold Key.signatureSize at hlength
    omega
  have hpow := Nat.pow_le_pow_right (show 0 < 2 by decide) hbits
  rw [Nat.one_shiftLeft] at hle hlt
  exact Nat.lt_of_lt_of_le hlt (Nat.le_trans hpow hle)

/-- A consistent key signs every digest that it has room for. -/
theorem exists_signDigest {key : Key} {family : DigestFamily} {digest : Bytes}
    (h : key.Consistent) (hodd : key.modulus % 2 = 1) (hdigest : digest.length = family.size)
    (hroom : family.size + 30 ≤ Key.signatureSize key.modulus) :
    ∃ signature, signDigest key family digest = .ok signature := by
  obtain ⟨secret, hsecret, hopens⟩ := h.exists_secret hodd
  have htail : (digestIdentifier family true ++ digest).length = 19 + family.size := by
    rw [List.length_append, hdigest]
    cases family <;> rfl
  unfold signDigest
  simp only
  cases hpad : padDigest family true digest (Key.signatureSize key.modulus) with
  | none =>
    simp only [padDigest] at hpad
    split at hpad
    · omega
    · cases hpad
  | some padded =>
    simp only [hsecret, hopens _ (toNat_lt_of_padDigest hpad), if_true]
    exact ⟨_, rfl⟩

end Rsa

/-- Whether a pair is one of a consistent private key and its public half. -/
structure KeyPair.Consistent (pair : KeyPair) : Prop where
  publicKey : PublicKey.ofKey pair.rsa = .ok pair.publicKey
  rsa : pair.rsa.Consistent

namespace KeyPair.Consistent

variable {pair : KeyPair}

theorem modulus_eq (h : pair.Consistent) : pair.publicKey.modulus = pair.rsa.modulus :=
  PublicKey.modulus_of_ofNumbers h.publicKey

/-- Keys of the sizes that images are signed with have room for every digest. -/
theorem le_signatureSize (h : pair.Consistent) {size : KeySize} (hbits : pair.bits = size.bits) :
    94 ≤ Rsa.Key.signatureSize pair.rsa.modulus := by
  have hlarge : 1 <<< 10 < pair.bits := by
    rw [hbits]
    cases size <;> decide
  have hpos : 0 < Number.bitLength pair.rsa.modulus := by
    by_contra hzero
    have hone := pair.publicKey.one_lt
    have hlt := Number.lt_shiftLeft_bitLength pair.rsa.modulus
    rw [h.modulus_eq] at hone
    rw [show Number.bitLength pair.rsa.modulus = 0 by omega] at hlt
    omega
  -- A modulus of no more than `2 ^ 10` bits would be rounded up to no more than that.
  have hmore : 1 <<< 10 < Number.bitLength pair.rsa.modulus := by
    by_contra hle
    have hround := Number.roundUpPow2_le (k := 10) hpos (by omega)
    rw [← h.modulus_eq] at hround
    exact absurd hlarge (Nat.not_lt.2 hround)
  unfold Rsa.Key.signatureSize
  omega

theorem of_fresh {supply : List Rsa.Key} {bits : Nat} (hsupply : ∀ key ∈ supply, key.Consistent)
    (h : fresh supply bits = .ok pair) : pair.Consistent := by
  obtain ⟨key, hkey, -, hmade⟩ := fresh_eq_ok h
  obtain ⟨rfl, hpublic⟩ := ofKey_eq_ok hmade
  exact ⟨hpublic, hsupply _ hkey⟩

end KeyPair.Consistent

/-- Whether a suite signs every message with every consistent pair of a size that images are signed
with. -/
def Suite.Signs (suite : Suite) : Prop :=
  ∀ {pair : KeyPair} {size : KeySize}, pair.Consistent → pair.bits = size.bits →
    ∀ family message, ∃ signature, suite.sign pair.rsa family message = .ok signature

/-- **RSA signs with every consistent pair**, whatever the digests are. -/
theorem Suite.signs_ofDigests {digest : DigestFamily → Bytes → Bytes}
    {length_digest : ∀ family message, (digest family message).length = family.size} :
    (ofDigests digest length_digest).Signs := by
  intro pair size h hbits family message
  have hodd : pair.rsa.modulus % 2 = 1 := by
    rw [← h.modulus_eq]
    exact pair.publicKey.odd
  have hsize : family.size ≤ 64 := by cases family <;> decide
  have hroom := h.le_signatureSize hbits
  exact Rsa.exists_signDigest h.rsa hodd (length_digest family message) (by omega)

namespace Rsa

/-- The numbers that are one more than a product of twos and threes. -/
def smooth (twos threes : Nat) : Nat :=
  1 <<< twos * 3 ^ threes + 1

/-- Such a number is prime if something generates all numbers below it: the power of the base is one
for the whole of the product, and for no part of it. -/
theorem prime_smooth {twos threes base : Nat}
    (hone : powMod base (smooth twos threes - 1) (smooth twos threes) = 1)
    (htwo : powMod base ((smooth twos threes - 1) / 2) (smooth twos threes) ≠ 1)
    (hthree : powMod base ((smooth twos threes - 1) / 3) (smooth twos threes) ≠ 1) :
    (smooth twos threes).Prime := by
  have hlarge : 1 < smooth twos threes := by
    have hpos : 0 < 1 <<< twos * 3 ^ threes :=
      Nat.mul_pos (by rw [Nat.one_shiftLeft]; positivity) (by positivity)
    unfold smooth
    omega
  have hpower (exponent : Nat) : (base : ZMod (smooth twos threes)) ^ exponent = 1 ↔
      powMod base exponent (smooth twos threes) = 1 := by
    rw [powMod_eq, ← Nat.cast_pow, ← Nat.cast_one, ZMod.natCast_eq_natCast_iff, Nat.ModEq,
      Nat.mod_eq_of_lt hlarge]
  -- Two and three are the only primes that divide the number less one.
  refine lucas_primality _ (base : ZMod (smooth twos threes)) ((hpower _).2 hone) ?_
  intro q hq hdvd
  rw [Ne, hpower]
  rw [smooth, Nat.add_sub_cancel, Nat.one_shiftLeft] at hdvd
  rcases hq.dvd_mul.1 hdvd with hdvd | hdvd
  · rw [(Nat.prime_dvd_prime_iff_eq hq Nat.prime_two).1 (hq.dvd_of_dvd_pow hdvd)]
    exact htwo
  · rw [(Nat.prime_dvd_prime_iff_eq hq Nat.prime_three).1 (hq.dvd_of_dvd_pow hdvd)]
    exact hthree

/-- A prime of 1025 bits. -/
theorem prime_smooth_853_108 : (smooth 853 108).Prime :=
  @prime_smooth _ _ 5 (by decide +kernel) (by decide +kernel) (by decide +kernel)

/-- A private key of 2048 bits. -/
def smoothKey : Key where
  modulus := smooth 853 108 * smooth 207 515
  exponent := 65537
  privateExponent := some ((27898 * ((smooth 853 108 - 1) * (smooth 207 515 - 1)) + 1) / 65537)

/-- It is the one of two primes. -/
theorem consistent_smoothKey : smoothKey.Consistent := by
  have hprime : (smooth 207 515).Prime :=
    @prime_smooth _ _ 5 (by decide +kernel) (by decide +kernel) (by decide +kernel)
  have hmade : Key.ofPrimes (smooth 853 108) (smooth 207 515) 65537 = .ok smoothKey := by
    decide +kernel
  exact Key.consistent_ofPrimes prime_smooth_853_108 hprime hmade

end Rsa

namespace KeyPair

/-- The pair of this key. -/
def smooth : KeyPair :=
  ⟨⟨Rsa.smoothKey.modulus, by decide +kernel, by decide +kernel⟩, Rsa.smoothKey⟩

/-- The key is fit for signing images, and has as many bits as it counts for. -/
theorem ofKey_smoothKey : ofKey Rsa.smoothKey = .ok smooth ∧ smooth.bits = 2048 ∧
    8 * Rsa.Key.signatureSize smooth.rsa.modulus = 2048 ∧
      Nat.gcd smooth.rsa.modulus 65537 = 1 := by
  decide +kernel

theorem consistent_smooth : smooth.Consistent :=
  ⟨(ofKey_eq_ok ofKey_smoothKey.1).2, Rsa.consistent_smoothKey⟩

/-- No other pair comes from a supply of this one key. -/
theorem eq_smooth_of_fresh {bits : Nat} {pair : KeyPair}
    (h : fresh [Rsa.smoothKey] bits = .ok pair) : pair = smooth := by
  obtain ⟨key, hkey, -, hmade⟩ := fresh_eq_ok h
  obtain rfl := List.mem_singleton.1 hkey
  exact Outcome.ok_unique hmade ofKey_smoothKey.1

end KeyPair

end VerifiedBoot
