import VerifiedBoot.Error

/-!
# Inverses modulo a number

The extended form of Euclid's algorithm, for all integers, with quotients that round to the floor.
It finds the inverse of a number modulo another, if they have no common divisor.
-/

namespace VerifiedBoot

namespace Number

/-- A remainder is smaller than the divisor, which is why the algorithm ends. -/
theorem natAbs_fmod_lt (a : Int) {b : Int} (h : b ≠ 0) : (a.fmod b).natAbs < b.natAbs := by
  rcases Int.lt_or_gt_of_ne h with hb | hb
  · have hpos : 0 < -b := by omega
    have h1 := Int.fmod_nonneg_of_pos (-a) hpos
    have h2 := Int.fmod_lt_of_pos (-a) hpos
    have h3 : a.fmod b = -((-a).fmod (-b)) := by
      rw [Int.neg_fmod_neg, Int.neg_neg]
    omega
  · have h1 := Int.fmod_nonneg_of_pos a hb
    have h2 := Int.fmod_lt_of_pos a hb
    omega

/-- One run of the algorithm from `(a, b)`, with the coefficients of both numbers so far. -/
def euclid (a b x₀ x₁ y₀ y₁ : Int) : Int × Int × Int :=
  if b = 0 then (a, x₀, y₀)
  else euclid b (a.fmod b) x₁ (x₀ - a.fdiv b * x₁) y₁ (y₀ - a.fdiv b * y₁)
termination_by b.natAbs
decreasing_by exact natAbs_fmod_lt a (by assumption)

/-- A common divisor `g` of `a` and `b` with coefficients such that `a * x + b * y = g`. -/
def bezout (a b : Int) : Int × Int × Int :=
  euclid a b 1 0 0 1

/-- The inverse of `a` modulo `m`, or none if the algorithm does not end in 1. Modulus zero is
an error where there is something to reduce. -/
def inverse? (a m : Int) : Except Error (Option Int) :=
  let (g, x, _) := bezout a m
  if g ≠ 1 then .ok none
  else if m = 0 then .error .divisionByZero
  else .ok (some (x.fmod m))

end Number

end VerifiedBoot
