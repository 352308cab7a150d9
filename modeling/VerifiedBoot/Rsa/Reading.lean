import VerifiedBoot.Bytes.Basic

/-!
# Reading data in one of several forms

A key has many written forms, and nothing but trying tells which one some data has. A reader of one
form says no in three ways: the data has not this form, so that the next one is tried; the data ends
where its own structure says that it does not, so that no other form is tried; or its numbers ask
for a division by zero. The first reader that does not pass the data on decides.
-/

namespace VerifiedBoot

namespace Rsa

/-- Why data is not read as a key. -/
inductive ReadFailure where
  /-- The data has not this form and may have another one. -/
  | otherForm
  /-- The data has this form as far as it goes, and no other one is tried. -/
  | unreadable
  | divisionByZero
  deriving DecidableEq, Repr

/-- What comes of reading data in a form. -/
abbrev Reading (α : Type) := Except ReadFailure α

namespace Reading

variable {α : Type}

/-- Reads the data in the first form that does not pass it on. -/
def firstOf : List (Bytes → Reading α) → Bytes → Reading α
  | [], _ => .error .otherForm
  | form :: forms, data =>
    match form data with
    | .error .otherForm => firstOf forms data
    | result => result

/-- A form that the data has is the one that it is read in. -/
theorem firstOf_cons_ok {form : Bytes → Reading α} {forms : List (Bytes → Reading α)}
    {data : Bytes} {x : α} (h : form data = .ok x) : firstOf (form :: forms) data = .ok x := by
  simp [firstOf, h]

theorem firstOf_cons_otherForm {form : Bytes → Reading α} {forms : List (Bytes → Reading α)}
    {data : Bytes} (h : form data = .error .otherForm) :
    firstOf (form :: forms) data = firstOf forms data := by
  simp [firstOf, h]

/-- A result that may be missing, where the data has not the form without it. -/
def ofOption : Option α → Reading α
  | some x => .ok x
  | none => .error .otherForm

/-- Passes the data on unless the condition holds. -/
def require (condition : Bool) : Reading Unit :=
  if condition then .ok () else .error .otherForm

@[simp] theorem require_true : require true = .ok () := rfl

@[simp] theorem require_false : require false = .error .otherForm := rfl

end Reading

end Rsa

end VerifiedBoot
