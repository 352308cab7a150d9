import VerifiedBoot.Rsa.Basic

/-!
# Probable primes

A number is taken for prime if it passes the strong test to a fixed list of bases and the Lucas
test. A prime always passes both, and no composite number is known that does: numbers that are made
to pass one of the tests fail the other one.
-/

namespace VerifiedBoot

namespace Rsa

/-- The bases of the strong test, which are also tried as divisors. -/
def smallPrimes : List Nat :=
  [2, 3, 5, 7, 11, 13, 17, 19, 23, 29, 31, 37]

/-- The odd part of a positive number and the power of two beside it. -/
def splitTwos (n : Nat) : Nat × Nat :=
  if n = 0 then (0, 0)
  else if n % 2 = 1 then (n, 0)
  else
    let (odd, twos) := splitTwos (n / 2)
    (odd, twos + 1)
termination_by n
decreasing_by omega

/-- The odd part of a number is no larger than the number. -/
theorem splitTwos_fst_le (n : Nat) : (splitTwos n).1 ≤ n := by
  induction n using Nat.strongRecOn with
  | ind n ih =>
    rw [splitTwos]
    by_cases h0 : n = 0
    · simp [h0]
    · by_cases h1 : n % 2 = 1
      · simp [h0, h1]
      · have := ih (n / 2) (by omega)
        simp only [h0, h1, if_false]
        omega

/-! ## The strong test -/

/-- Whether one of `count` squarings of `x` modulo `n` gives `n - 1`. -/
def reachesMinusOne (n : Nat) : Nat → Nat → Bool
  | 0, _ => false
  | count + 1, x => x = n - 1 || reachesMinusOne n count (x * x % n)

/-- The strong test to one base. -/
def passesStrong (n base : Nat) : Bool :=
  let (odd, twos) := splitTwos (n - 1)
  let x := powMod base odd n
  x = 1 || reachesMinusOne n twos x

/-! ## The Lucas test -/

/-- The Jacobi symbol of a number over an odd one. -/
def jacobi (a n : Nat) : Int :=
  if n ≤ 1 then 1
  else if a % n = 0 then 0
  else
    let parts := splitTwos (a % n)
    let twos : Int := if parts.2 % 2 = 1 ∧ (n % 8 = 3 ∨ n % 8 = 5) then -1 else 1
    let swap : Int := if parts.1 % 4 = 3 ∧ n % 4 = 3 then -1 else 1
    twos * swap * jacobi n parts.1
termination_by n
decreasing_by
  have h := splitTwos_fst_le (a % n)
  have := Nat.mod_lt a (show 0 < n by omega)
  omega

/-- The largest number whose square is at most `n`. -/
def squareRoot (n : Nat) : Nat :=
  if n = 0 then 0
  else
    let low := 2 * squareRoot (n / 4)
    if (low + 1) * (low + 1) ≤ n then low + 1 else low
termination_by n
decreasing_by omega

/-- The first of the numbers 5, -7, 9, -11, … from `start` on whose Jacobi symbol over `n` is not
one, modulo `n`, with that symbol. The numbers that are tried are smaller than `n`. -/
def discriminant? (n start : Nat) : Option (Nat × Int) :=
  if start < n then
    let d := if start % 4 = 1 then start else n - start
    let symbol := jacobi d n
    if symbol = 1 then discriminant? n (start + 2) else some (d, symbol)
  else none
termination_by n - start
decreasing_by omega

/-- Half of `x` modulo an odd `n`. -/
def halve (n x : Nat) : Nat :=
  if x % 2 = 0 then x / 2 % n else (x + n) / 2 % n

/-- The elements at `index` of the two Lucas sequences with discriminant `d`, modulo an odd `n`. -/
def lucas (n d index : Nat) : Nat × Nat :=
  if index = 0 then (0, 2 % n)
  else
    let (u, v) := lucas n d (index / 2)
    let (u, v) := (u * v % n, halve n (v * v + d * u * u))
    if index % 2 = 0 then (u, v)
    else (halve n (u + v), halve n (d * u + v))
termination_by index
decreasing_by omega

/-- The Lucas test. -/
def passesLucas (n : Nat) : Bool :=
  if squareRoot n * squareRoot n = n then false
  else match discriminant? n 5 with
    | some (d, -1) => (lucas n d (n + 1)).1 = 0
    | _ => false

/-- Whether a number is taken for prime. -/
def isProbablePrime (n : Nat) : Bool :=
  if smallPrimes.contains n then true
  else if n < 2 || smallPrimes.any (n % · = 0) then false
  else smallPrimes.all (passesStrong n) && passesLucas n

end Rsa

end VerifiedBoot
