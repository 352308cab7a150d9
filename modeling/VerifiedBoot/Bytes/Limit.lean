import VerifiedBoot.Error

/-!
# Limits of sizes and positions

A position in a file is a number of 64 bits with its sign, and a byte string is at most as long as
there is room for. What is beyond these limits is an error. How much room there is depends on the
machine; no machine has more than `maxSize`.
-/

namespace VerifiedBoot

namespace Bytes

/-- The first number that is too large for a position. -/
def positionLimit : Nat :=
  1 <<< 63

/-- Whether a number can be a position, or a distance back from the end. -/
def inRange (n : Int) : Bool :=
  -(positionLimit : Int) ≤ n && n < positionLimit

/-- The length of the longest byte string that has an address for each byte; a few bytes are taken
for its description. -/
def maxSize : Nat :=
  positionLimit - 34

/-- Checks that a byte string can be as long as `size`, on a machine with room for `room` bytes. -/
def requireRoom (room size : Nat) : Except Error Unit :=
  if maxSize < size then .error .sizeTooLarge
  else if room < size then .error .outOfMemory
  else .ok ()

/-- There is room for what is at most as long as both limits. -/
theorem requireRoom_eq_ok {room size : Nat} :
    requireRoom room size = .ok () ↔ size ≤ min room maxSize := by
  rw [requireRoom, Nat.le_min]
  by_cases hmax : maxSize < size
  · rw [if_pos hmax]
    exact ⟨nofun, fun h => absurd h.2 (Nat.not_le.2 hmax)⟩
  · rw [if_neg hmax]
    by_cases hroom : room < size
    · rw [if_pos hroom]
      exact ⟨nofun, fun h => absurd h.1 (Nat.not_le.2 hroom)⟩
    · rw [if_neg hroom]
      exact ⟨fun _ => ⟨Nat.not_lt.1 hroom, Nat.not_lt.1 hmax⟩, fun _ => rfl⟩

theorem lt_of_le_room {room size : Nat} (h : size ≤ min room maxSize) : size < 1 <<< 63 :=
  Nat.lt_of_le_of_lt (Nat.le_trans h (Nat.min_le_right room maxSize)) (by decide)

/-- The position in a file that a number denotes. -/
def position (n : Int) : Except Error Nat :=
  if !inRange n then .error .sizeTooLarge
  else if n < 0 then .error .negativePosition
  else .ok n.toNat

/-- A number that is not negative and below the limit is a position. -/
theorem position_natCast {n : Nat} (h : n < positionLimit) : position n = .ok n := by
  have h1 : inRange n = true := by
    simp only [inRange, Bool.and_eq_true, decide_eq_true_eq]
    omega
  have h2 : ¬((n : Int) < 0) := by omega
  simp [position, h1, h2]

end Bytes

end VerifiedBoot
