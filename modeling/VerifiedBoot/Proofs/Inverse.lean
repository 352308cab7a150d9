import Mathlib.Tactic.Ring
import VerifiedBoot.Number.Inverse

/-!
# The inverse that Euclid's algorithm finds

A step of the algorithm replaces two numbers by the second one and a remainder. It keeps their
common divisors, and it keeps both of them combinations of the two numbers that the run started
with. So the number that is left is, up to its sign, the greatest common divisor, and it is a
combination of the two numbers at the start. The sign is that of the modulus, where there is one to
find an inverse for.
-/

namespace VerifiedBoot

namespace Number

/-- A step keeps the common divisors. -/
theorem gcd_fmod (a b : Int) : Int.gcd b (a.fmod b) = Int.gcd a b := by
  rw [Int.fmod_def, Int.gcd_comm, Int.gcd_sub_mul_left_left]

/-- A step keeps the remainder a combination of the two numbers at the start. -/
theorem combination_fmod {m n a b x₀ x₁ y₀ y₁ : Int} (h₀ : m * x₀ + n * y₀ = a)
    (h₁ : m * x₁ + n * y₁ = b) :
    m * (x₀ - a.fdiv b * x₁) + n * (y₀ - a.fdiv b * y₁) = a.fmod b := by
  calc m * (x₀ - a.fdiv b * x₁) + n * (y₀ - a.fdiv b * y₁)
      = (m * x₀ + n * y₀) - (m * x₁ + n * y₁) * a.fdiv b := by ring
    _ = a - b * a.fdiv b := by rw [h₀, h₁]
    _ = a.fmod b := (Int.fmod_def a b).symm

/-- What a run keeps: its result is a combination of the two numbers at the start, and has the
common divisors of the two numbers that it goes on from. -/
theorem euclid_spec {m n a b x₀ x₁ y₀ y₁ g x y : Int} (h₀ : m * x₀ + n * y₀ = a)
    (h₁ : m * x₁ + n * y₁ = b) (h : euclid a b x₀ x₁ y₀ y₁ = (g, x, y)) :
    m * x + n * y = g ∧ g.natAbs = Int.gcd a b := by
  revert h
  fun_induction euclid a b x₀ x₁ y₀ y₁ with
  | case1 a x₀ x₁ y₀ y₁ =>
    rintro ⟨⟩
    exact ⟨h₀, (Int.gcd_zero_right _).symm⟩
  | case2 a b x₀ x₁ y₀ y₁ hb ih =>
    intro h
    obtain ⟨hcombination, hgcd⟩ := ih h₁ (combination_fmod h₀ h₁) h
    exact ⟨hcombination, hgcd.trans (gcd_fmod a b)⟩

/-- The result is a combination of the two numbers and, up to its sign, their greatest common
divisor. -/
theorem bezout_spec {a b g x y : Int} (h : bezout a b = (g, x, y)) :
    a * x + b * y = g ∧ g.natAbs = Int.gcd a b :=
  euclid_spec (by ring) (by ring) h

/-- A run that goes on from numbers that are not negative ends in one. -/
theorem euclid_nonneg {a b x₀ x₁ y₀ y₁ g x y : Int} (ha : 0 ≤ a) (hb : 0 ≤ b)
    (h : euclid a b x₀ x₁ y₀ y₁ = (g, x, y)) : 0 ≤ g := by
  revert h
  fun_induction euclid a b x₀ x₁ y₀ y₁ with
  | case1 a x₀ x₁ y₀ y₁ =>
    rintro ⟨⟩
    exact ha
  | case2 a b x₀ x₁ y₀ y₁ hzero ih => exact ih hb (Int.fmod_nonneg_of_pos a (by omega))

/-- With a positive modulus the result is not negative, as all remainders have its sign. -/
theorem bezout_nonneg {a m g x y : Int} (hm : 0 < m) (h : bezout a m = (g, x, y)) : 0 ≤ g := by
  unfold bezout euclid at h
  rw [if_neg (by omega)] at h
  exact euclid_nonneg (by omega) (Int.fmod_nonneg_of_pos a hm) h

/-- A number without a common divisor with the modulus has an inverse, and it is found. -/
theorem exists_inverse {a m : Int} (hm : 0 < m) (hcoprime : Int.gcd a m = 1) :
    ∃ x, inverse? a m = .ok (some x) ∧ 0 ≤ x ∧ x < m ∧ a * x % m = 1 % m := by
  obtain ⟨⟨g, x, y⟩, hresult⟩ : ∃ result, bezout a m = result := ⟨_, rfl⟩
  obtain ⟨hcombination, hgcd⟩ := bezout_spec hresult
  obtain rfl : g = 1 := by
    have hnonneg := bezout_nonneg hm hresult
    omega
  refine ⟨x.fmod m, ?_, Int.fmod_nonneg_of_pos x hm, Int.fmod_lt_of_pos x hm, ?_⟩
  · simp only [inverse?, hresult]
    rw [if_neg (by omega), if_neg (by omega)]
  · calc a * x.fmod m % m
        = a * x % m := by
          rw [Int.fmod_eq_emod_of_nonneg x (by omega), Int.mul_emod, Int.emod_emod, ← Int.mul_emod]
      _ = (a * x + m * y) % m := (Int.add_mul_emod_self_left _ _ _).symm
      _ = 1 % m := by rw [hcombination]

/-- A number with a common divisor with the modulus has no inverse, and none is found. -/
theorem inverse_eq_none {a m : Int} (hm : 0 < m) (h : Int.gcd a m ≠ 1) :
    inverse? a m = .ok none := by
  obtain ⟨⟨g, x, y⟩, hresult⟩ : ∃ result, bezout a m = result := ⟨_, rfl⟩
  obtain ⟨-, hgcd⟩ := bezout_spec hresult
  have hnonneg := bezout_nonneg hm hresult
  simp only [inverse?, hresult]
  exact if_pos (by omega)

/-- What is found is an inverse, and then there is no common divisor. -/
theorem inverse_eq_some {a m x : Int} (hm : 0 < m) (h : inverse? a m = .ok (some x)) :
    Int.gcd a m = 1 ∧ 0 ≤ x ∧ a * x % m = 1 % m := by
  by_cases hcoprime : Int.gcd a m = 1
  · obtain ⟨y, hfound, hnonneg, -, hinverse⟩ := exists_inverse hm hcoprime
    obtain rfl := Option.some.inj (Except.ok.inj (hfound.symm.trans h))
    exact ⟨hcoprime, hnonneg, hinverse⟩
  · cases (inverse_eq_none hm hcoprime).symm.trans h

end Number

end VerifiedBoot
