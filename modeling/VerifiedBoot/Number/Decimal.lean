import VerifiedBoot.Text.Digit

/-!
# Numbers in decimal notation

A whole number is written with an optional sign and decimal digits, between which single
underscores may stand, and with blanks around it. Numbers of more than 4300 digits are not read.
-/

namespace VerifiedBoot

namespace Number

/-- The most digits, leading zeros included, that a number may be written with. -/
def maxDigits : Nat :=
  4300

/-- The digits of a number without its sign. -/
def digits? : List Char → Option (List Nat)
  | [] => none
  | [c] => do return [← Text.digit? c]
  | c :: '_' :: rest => do return (← Text.digit? c) :: (← digits? rest)
  | c :: rest => do return (← Text.digit? c) :: (← digits? rest)

/-- The number of a list of digits, the most significant one first. -/
def ofDigits (digits : List Nat) : Nat :=
  digits.foldl (fun n d => n * 10 + d) 0

/-- The number that digits without a sign denote. -/
def magnitude? (chars : List Char) : Option Nat := do
  let digits ← digits? chars
  guard (digits.length ≤ maxDigits)
  return ofDigits digits

/-- The characters without the blanks around them. -/
def trimBlanks (chars : List Char) : List Char :=
  ((chars.dropWhile Text.isBlank).reverse.dropWhile Text.isBlank).reverse

/-- The whole number that a text denotes. -/
def ofText? (text : String) : Option Int :=
  match trimBlanks text.toList with
  | '-' :: rest => (magnitude? rest).map fun n => -(n : Int)
  | '+' :: rest => (magnitude? rest).map fun n => (n : Int)
  | chars => (magnitude? chars).map fun n => (n : Int)

end Number

end VerifiedBoot
