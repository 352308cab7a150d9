import VerifiedBoot.Rsa.Prime

/-!
# Making keys

A new key is the product of two primes of equal size, which are looked for among random numbers.
Both have their two highest bits set, so that their product has twice as many bits as each of them.
-/

namespace VerifiedBoot

namespace Rsa

/-- The odd number of `bits` bits with the two highest of them set and the low bits of the data
below. -/
def candidate (bits : Nat) (data : Bytes) : Nat :=
  (3 <<< (bits - 2)) + (Bytes.toNat data % (1 <<< (bits - 3)) * 2 + 1)

/-- Whether a number can be a prime of a key with a public exponent. -/
def isUsable (exponent n : Nat) : Bool :=
  Nat.gcd (n - 1) exponent = 1 && isProbablePrime n

/-- A candidate has its two highest bits set. -/
theorem le_candidate (bits : Nat) (data : Bytes) : 3 <<< (bits - 2) ≤ candidate bits data :=
  Nat.le_add_right _ _

/-- A candidate has no more bits than it was made for. -/
theorem candidate_lt {bits : Nat} (h : 3 ≤ bits) (data : Bytes) :
    candidate bits data < 1 <<< bits := by
  obtain ⟨k, rfl⟩ : ∃ k, bits = k + 3 := ⟨bits - 3, by omega⟩
  have hlow : Bytes.toNat data % (1 <<< k) < 1 <<< k :=
    Nat.mod_lt _ (by rw [Nat.one_shiftLeft]; exact Nat.two_pow_pos k)
  have h2 : k + 3 - 2 = k + 1 := by omega
  have h3 : k + 3 - 3 = k := by omega
  rw [candidate, h2, h3, show 3 <<< (k + 1) = 6 * (1 <<< k) by
      simp only [Nat.shiftLeft_eq, Nat.pow_succ]; omega,
    show 1 <<< (k + 3) = 8 * (1 <<< k) by simp only [Nat.shiftLeft_eq, Nat.pow_succ]; omega]
  omega

end Rsa

end VerifiedBoot
