import Mathlib.Tactic.Common
import VerifiedBoot.Number.Rounding

/-!
# What rounding up gives

Rounding up to a multiple gives the least multiple that is not below, and rounding up to a power of
two gives a size that a number of as many binary digits fits into.
-/

namespace VerifiedBoot

namespace Number

/-- Rounding up gives a multiple, less than one multiple away. -/
theorem roundUp_spec {n size : Int} (hsize : 0 < size) :
    n ≤ roundUp n size ∧ roundUp n size < n + size ∧ size ∣ roundUp n size := by
  have hmod := Int.emod_nonneg n (show size ≠ 0 by omega)
  have hlt := Int.emod_lt_of_pos n hsize
  unfold roundUp
  rw [Int.fmod_eq_emod_of_nonneg n (show 0 ≤ size by omega)]
  split
  · next h => exact ⟨Int.le_refl n, by omega, Int.dvd_of_emod_eq_zero h⟩
  · next h =>
    refine ⟨by omega, by omega, n / size + 1, ?_⟩
    have := Int.mul_ediv_add_emod n size
    rw [Int.mul_add, Int.mul_one]
    omega

/-- How many binary digits are enough for a number. -/
theorem bitLength_le_iff {n : Int} {k : Nat} : bitLength n ≤ k ↔ n.natAbs < 1 <<< k := by
  unfold bitLength
  rw [Nat.one_shiftLeft]
  split
  · next hn =>
    subst hn
    exact iff_of_true (Nat.zero_le k) (Nat.two_pow_pos k)
  · next hn => rw [Nat.add_one_le_iff, Nat.log2_lt (by omega)]

/-- A number has as many binary digits as the next power of two needs. -/
theorem lt_shiftLeft_bitLength (n : Nat) : n < 1 <<< bitLength n :=
  bitLength_le_iff.1 (Nat.le_refl (bitLength n))

theorem shiftLeft_bitLength_le {n : Nat} (hn : 0 < n) : 1 <<< (bitLength n - 1) ≤ n := by
  rw [bitLength, if_neg (by omega), Int.natAbs_natCast, Nat.one_shiftLeft, Nat.add_sub_cancel]
  exact Nat.log2_self_le (by omega)

/-- Rounding up to a power of two does not go down. -/
theorem le_roundUpPow2 (n : Nat) : n ≤ roundUpPow2 n := by
  by_cases hn : n = 0
  · omega
  · have hlt := lt_shiftLeft_bitLength (n - 1)
    rw [Int.natCast_sub (by omega)] at hlt
    unfold roundUpPow2
    change n - 1 < 1 <<< bitLength ((n : Int) - 1) at hlt
    omega

/-- Rounding up to a power of two does not go past one. -/
theorem roundUpPow2_le {n k : Nat} (hpos : 0 < n) (h : n ≤ 1 <<< k) :
    roundUpPow2 n ≤ 1 <<< k := by
  have hdigits : bitLength ((n : Int) - 1) ≤ k := bitLength_le_iff.2 (by omega)
  unfold roundUpPow2
  rw [Nat.one_shiftLeft, Nat.one_shiftLeft]
  exact Nat.pow_le_pow_right (by decide) hdigits

/-- A power of two that is not below eight is a whole number of bytes. -/
theorem eight_dvd_roundUpPow2 {n : Int} (h : 8 ≤ roundUpPow2 n) : 8 ∣ roundUpPow2 n := by
  unfold roundUpPow2 at h ⊢
  rw [Nat.one_shiftLeft] at h ⊢
  have hexp : 3 ≤ bitLength (n - 1) := by
    by_contra hlt
    have := Nat.pow_lt_pow_right (show 1 < 2 by decide) (show bitLength (n - 1) < 3 by omega)
    omega
  exact Nat.pow_dvd_pow 2 hexp

theorem roundUp_of_dvd {n size : Nat} (h : size ∣ n) : roundUp n size = n := by
  unfold roundUp
  rw [Int.fmod_eq_emod_of_nonneg n (Int.natCast_nonneg size)]
  exact if_pos (Int.emod_eq_zero_of_dvd (Int.natCast_dvd_natCast.2 h))

/-- A number is written in whole bytes, if it can have as many binary digits. -/
theorem exists_encode {bits : Nat} (value : Nat) (hdvd : 8 ∣ bits) (hbits : bits ≤ maxBits) :
    ∃ data, encode bits value = .ok data := by
  have hlow : ((value : Int) % ((1 <<< bits : Nat) : Int)).toNat < 1 <<< (8 * (bits / 8)) := by
    have hpos : 0 < 1 <<< bits := by
      rw [Nat.one_shiftLeft]
      exact Nat.two_pow_pos bits
    rw [Nat.mul_div_cancel' hdvd, ← Int.natCast_emod, Int.toNat_natCast]
    exact Nat.mod_lt _ hpos
  unfold encode
  rw [if_neg (by omega), if_neg (by omega)]
  simp only [Int.toNat_natCast]
  exact ⟨_, if_pos hlow⟩

/-- A number that is written in so many bits is one that they hold. -/
theorem encode_eq_ok {bits value : Nat} {data : Bytes} (h : encode bits value = .ok data) :
    value % (1 <<< bits) < 1 <<< (8 * (bits / 8)) ∧
      data = Bytes.bigEndian (bits / 8) (value % (1 <<< bits)) := by
  unfold encode at h
  have hlow : ((value : Int) % ((1 <<< bits : Nat) : Int)).toNat = value % (1 <<< bits) := by
    rw [← Int.natCast_emod, Int.toNat_natCast]
  simp only [Int.toNat_natCast, hlow] at h
  split at h
  · cases h
  · split at h
    · cases h
    · split at h
      · next hfits => exact ⟨hfits, (Except.ok.inj h).symm⟩
      · cases h

end Number

end VerifiedBoot
