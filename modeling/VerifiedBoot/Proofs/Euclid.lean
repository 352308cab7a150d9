import VerifiedBoot.Proofs.Inverse
import VerifiedBoot.Proofs.Rounding

/-!
# The rounds of Euclid's algorithm

The algorithm goes round a loop with six variables for as long as the second number is not zero. The
loop is described here by what one round does, apart from the function that computes its result.

A remainder has the sign of the divisor, so what is left of a divisor after two rounds is less than
half of it, whatever the signs are. There are at most two rounds for each binary digit of the second
number. The loop therefore ends for all integers, and in nothing but what the function gives.
-/

namespace VerifiedBoot

namespace Number

/-! ### The loop -/

/-- The variables of the loop: two numbers, and for each of them the coefficients of the two numbers
that the loop started from. -/
structure Variables where
  a : Int
  b : Int
  x₀ : Int
  x₁ : Int
  y₀ : Int
  y₁ : Int

namespace Variables

/-- The variables in front of the first round. -/
def start (a b : Int) : Variables :=
  ⟨a, b, 1, 0, 0, 1⟩

/-- The variables after one more round. -/
def next (v : Variables) : Variables where
  a := v.b
  b := v.a.fmod v.b
  x₀ := v.x₁
  x₁ := v.x₀ - v.a.fdiv v.b * v.x₁
  y₀ := v.y₁
  y₁ := v.y₀ - v.a.fdiv v.b * v.y₁

/-- Whether the loop, which goes on while `b` is not zero, ends after so many rounds in a result. -/
inductive Ends : Variables → Nat → Int × Int × Int → Prop
  | done {v : Variables} (h : v.b = 0) : Ends v 0 (v.a, v.x₀, v.y₀)
  | round {v : Variables} {n : Nat} {result : Int × Int × Int} (h : v.b ≠ 0)
      (rest : Ends v.next n result) : Ends v (n + 1) result

/-- The loop ends after one number of rounds only, and in one result. -/
theorem Ends.unique {v : Variables} {n k : Nat} {result other : Int × Int × Int}
    (h : v.Ends n result) (hother : v.Ends k other) : k = n ∧ other = result := by
  induction h generalizing k with
  | done hzero =>
    cases hother with
    | done => exact ⟨rfl, rfl⟩
    | round hne => exact absurd hzero hne
  | round hne rest ih =>
    cases hother with
    | done hzero => exact absurd hzero hne
    | round _ rest' =>
      obtain ⟨rfl, rfl⟩ := ih rest'
      exact ⟨rfl, rfl⟩

end Variables

/-! ### How many rounds there are -/

/-- A remainder is less than half of what is divided, if the divisor is not larger than that. -/
theorem two_mul_emod_lt {b c : Int} (hc : 0 < c) (hle : c ≤ b) : 2 * (b % c) < b := by
  have hquotient : 1 ≤ b / c := Int.le_ediv_of_mul_le hc (by omega)
  have hproduct : c * 1 ≤ c * (b / c) := Int.mul_le_mul_of_nonneg_left hquotient hc.le
  have hdivision := Int.mul_ediv_add_emod b c
  have hlt := Int.emod_lt_of_pos b hc
  omega

/-- The remainder of a positive divisor and its own remainder is less than half of it. -/
theorem two_mul_fmod_fmod_lt (a : Int) {b : Int} (hb : 0 < b) (h : a.fmod b ≠ 0) :
    0 ≤ b.fmod (a.fmod b) ∧ 2 * b.fmod (a.fmod b) < b := by
  have hnonneg := Int.fmod_nonneg_of_pos a hb
  have hlt := Int.fmod_lt_of_pos a hb
  refine ⟨Int.fmod_nonneg_of_pos b (by omega), ?_⟩
  rw [Int.fmod_eq_emod_of_nonneg b hnonneg]
  exact two_mul_emod_lt (by omega) hlt.le

/-- Two rounds leave less than half of a divisor. -/
theorem two_mul_natAbs_fmod_fmod_lt (a : Int) {b : Int} (hb : b ≠ 0) (h : a.fmod b ≠ 0) :
    2 * (b.fmod (a.fmod b)).natAbs < b.natAbs := by
  rcases Int.lt_or_gt_of_ne hb with hneg | hpos
  · -- Both remainders change their sign with the two numbers.
    have hfirst : a.fmod b = -(-a).fmod (-b) := by rw [Int.neg_fmod_neg, Int.neg_neg]
    have hsecond : b.fmod (a.fmod b) = -(-b).fmod ((-a).fmod (-b)) := by
      rw [Int.neg_fmod_neg a, Int.neg_fmod_neg, Int.neg_neg]
    have hhalf := two_mul_fmod_fmod_lt (-a) (show 0 < -b by omega) (by omega)
    omega
  · have hhalf := two_mul_fmod_fmod_lt a hpos h
    omega

theorem bitLength_le_of_natAbs_le {m n : Int} (h : m.natAbs ≤ n.natAbs) :
    bitLength m ≤ bitLength n :=
  bitLength_le_iff.2 (Nat.lt_of_le_of_lt h (bitLength_le_iff.1 (Nat.le_refl _)))

/-- A number that is less than half as large has fewer binary digits. -/
theorem bitLength_lt_of_two_mul_lt {m n : Int} (h : 2 * m.natAbs < n.natAbs) :
    bitLength m < bitLength n := by
  have hdigits := bitLength_le_iff.1 (Nat.le_refl (bitLength n))
  cases hn : bitLength n with
  | zero =>
    rw [hn, Nat.shiftLeft_zero] at hdigits
    omega
  | succ k =>
    rw [hn, Nat.shiftLeft_succ] at hdigits
    exact Nat.lt_succ_of_le (bitLength_le_iff.2 (by omega))

/-- **The loop ends.** There is at most one round for each binary digit of the second number and of
the first remainder. -/
theorem Variables.exists_ends (a b x₀ x₁ y₀ y₁ : Int) :
    ∃ n, n ≤ bitLength b + bitLength (a.fmod b) ∧
      Variables.Ends ⟨a, b, x₀, x₁, y₀, y₁⟩ n (euclid a b x₀ x₁ y₀ y₁) := by
  fun_induction euclid a b x₀ x₁ y₀ y₁ with
  | case1 a x₀ x₁ y₀ y₁ => exact ⟨0, Nat.zero_le _, .done rfl⟩
  | case2 a b x₀ x₁ y₀ y₁ hb ih =>
    by_cases hremainder : a.fmod b = 0
    · -- Nothing is left, so this round is the last one.
      have hdigit : bitLength b ≠ 0 := fun hzero => by
        have := bitLength_le_iff.1 hzero.le
        rw [Nat.shiftLeft_zero] at this
        omega
      rw [hremainder, euclid, if_pos rfl]
      exact ⟨1, by omega, .round hb (.done hremainder)⟩
    · obtain ⟨n, hn, hends⟩ := ih
      have hhalf := bitLength_lt_of_two_mul_lt (two_mul_natAbs_fmod_fmod_lt a hb hremainder)
      exact ⟨n + 1, by omega, .round hb hends⟩

/-- The first remainder has no more binary digits than the second number. -/
theorem Variables.exists_ends_start (a b : Int) :
    ∃ n, n ≤ 2 * bitLength b ∧ (Variables.start a b).Ends n (bezout a b) := by
  by_cases hb : b = 0
  · subst hb
    rw [bezout, euclid, if_pos rfl]
    exact ⟨0, Nat.zero_le _, .done rfl⟩
  · obtain ⟨n, hn, hends⟩ := Variables.exists_ends a b 1 0 0 1
    have hdigits := bitLength_le_of_natAbs_le (natAbs_fmod_lt a hb).le
    exact ⟨n, by omega, hends⟩

/-! ### Inverses -/

variable {a m x y : Int}

/-- Two inverses of a number are equal modulo the modulus. -/
theorem inverse_unique (hx : a * x % m = 1 % m) (hy : a * y % m = 1 % m) : x % m = y % m := by
  have hcancel {u v : Int} (hv : a * v % m = 1 % m) : u % m = a * u * v % m := by
    calc u % m = u * 1 % m := by rw [Int.mul_one]
      _ = u * (a * v) % m := by rw [Int.mul_emod, ← hv, ← Int.mul_emod]
      _ = a * u * v % m := by rw [← Int.mul_assoc, Int.mul_comm u a]
  rw [hcancel hy, Int.mul_assoc, Int.mul_comm x y, ← Int.mul_assoc, ← hcancel hx]

/-- **The algorithm of Euclid.** For all integers the loop ends, after at most two rounds for each
binary digit of the second number. Its one result is that of the function: a combination of the two
numbers that is their greatest common divisor up to its sign. For a positive modulus no inverse is
found exactly if there is a common divisor above 1; otherwise the one that is found is the only one
that is not negative and below the modulus. -/
theorem bezout_inverse_exact :
    (∀ a b : Int, ∃ n g x y, n ≤ 2 * bitLength b ∧
      (∀ k result, (Variables.start a b).Ends k result ↔ k = n ∧ result = (g, x, y)) ∧
      bezout a b = (g, x, y) ∧ a * x + b * y = g ∧ g.natAbs = Int.gcd a b) ∧
    ∀ a m : Int, 1 ≤ m → ∃ found, inverse? a m = .ok found ∧
      (found = none ↔ Int.gcd a m ≠ 1) ∧
      ∀ x, found = some x ↔ Int.gcd a m = 1 ∧ 0 ≤ x ∧ x < m ∧ a * x % m = 1 % m := by
  refine ⟨fun a b => ?_, fun a m hm => ?_⟩
  · obtain ⟨n, hn, hends⟩ := Variables.exists_ends_start a b
    obtain ⟨⟨g, x, y⟩, hresult⟩ : ∃ result, bezout a b = result := ⟨_, rfl⟩
    obtain ⟨hcombination, hgcd⟩ := bezout_spec hresult
    rw [hresult] at hends
    refine ⟨n, g, x, y, hn, fun k result => ⟨hends.unique, ?_⟩, hresult, hcombination, hgcd⟩
    rintro ⟨rfl, rfl⟩
    exact hends
  · by_cases hcoprime : Int.gcd a m = 1
    · obtain ⟨x, hfound, hnonneg, hlt, hinverse⟩ := exists_inverse hm hcoprime
      refine ⟨some x, hfound, ⟨nofun, fun h => absurd hcoprime h⟩, fun x' => ⟨?_, ?_⟩⟩
      · rintro ⟨⟩
        exact ⟨hcoprime, hnonneg, hlt, hinverse⟩
      · rintro ⟨-, hnonneg', hlt', hinverse'⟩
        -- Two inverses are congruent, and below the modulus congruent numbers are the same.
        have hsame := inverse_unique hinverse hinverse'
        rw [Int.emod_eq_of_lt hnonneg hlt, Int.emod_eq_of_lt hnonneg' hlt'] at hsame
        rw [hsame]
    · refine ⟨none, inverse_eq_none hm hcoprime, ⟨fun _ => hcoprime, fun _ => rfl⟩, fun x => ?_⟩
      exact ⟨nofun, fun h => absurd h.1 hcoprime⟩

/-- Two negative numbers are done with in at most ten rounds, and their greatest common divisor is
six. Modulo 7 the number -3 has the inverse 2; modulo 6 the number 4 has none. -/
theorem bezout_inverse_exact_negative :
    (∃ n g x y, n ≤ 10 ∧ (Variables.start (-12) (-18)).Ends n (g, x, y) ∧
      -12 * x + -18 * y = g ∧ g.natAbs = 6) ∧
    inverse? (-3) 7 = .ok (some 2) ∧ inverse? 4 6 = .ok none := by
  obtain ⟨hloop, hinverse⟩ := bezout_inverse_exact
  refine ⟨?_, ?_, ?_⟩
  · obtain ⟨n, g, x, y, hn, hends, -, hcombination, hgcd⟩ := hloop (-12) (-18)
    exact ⟨n, g, x, y, hn.trans (by decide), (hends _ _).2 ⟨rfl, rfl⟩, hcombination, hgcd⟩
  · obtain ⟨found, hfound, -, hsome⟩ := hinverse (-3) 7 (by decide)
    rw [hfound, (hsome 2).2 ⟨by decide, by decide, by decide, by decide⟩]
  · obtain ⟨found, hfound, hnone, -⟩ := hinverse 4 6 (by decide)
    rw [hfound, hnone.2 (by decide)]

end Number

end VerifiedBoot
