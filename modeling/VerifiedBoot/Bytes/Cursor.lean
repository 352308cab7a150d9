import VerifiedBoot.Bytes.Stream

/-!
# Positions in a file

A file is read from a position on, which may lie past its end. What was read moves the position
past it. How much is left is the distance from the position to the end.
-/

namespace VerifiedBoot

/-- A file with the position that the next read begins at. -/
structure Cursor where
  contents : Bytes
  position : Nat
  deriving DecidableEq

namespace Cursor

/-- The bytes from the position on; there are none past the end. -/
def ahead (c : Cursor) : Bytes :=
  c.contents.drop c.position

/-- The distance to the end, which is negative past it. -/
def left (c : Cursor) : Int :=
  c.contents.length - c.position

/-- The cursor that stands `n` bytes further on. -/
def advance (c : Cursor) (n : Nat) : Cursor :=
  { c with position := c.position + n }

/-- Reads exactly `size` bytes and moves past them. -/
def readFully (c : Cursor) (size : Int) : Except Error (Bytes × Cursor) := do
  let (data, _) ← Stream.readFully size [c.ahead]
  return (data, c.advance data.length)

@[simp] theorem ahead_start (data : Bytes) : (Cursor.mk data 0).ahead = data :=
  rfl

@[simp] theorem ahead_advance (c : Cursor) (n : Nat) : (c.advance n).ahead = c.ahead.drop n := by
  rw [ahead, ahead, List.drop_drop]
  rfl

@[simp] theorem advance_advance (c : Cursor) (m n : Nat) :
    (c.advance m).advance n = c.advance (m + n) := by
  rw [advance, advance, advance, Nat.add_assoc]

end Cursor

end VerifiedBoot
