import VerifiedBoot.Rsa.Reading

/-!
# Length-prefixed fields

The keys of remote shells are rows of fields, each with its length in the four bytes in front. The
public form is cut where the data ends; the private one has to be complete.
-/

namespace VerifiedBoot

namespace Rsa.Wire

/-- The number in the first four bytes, and what follows it. -/
def takeNumber (data : Bytes) : Reading (Nat × Bytes) := do
  Reading.require (4 ≤ data.length)
  return (Bytes.toNat (data.take 4), data.drop 4)

/-- The field at the head of the data, and what follows it. -/
def takeField (data : Bytes) : Reading (Bytes × Bytes) := do
  let (size, rest) ← takeNumber data
  Reading.require (size ≤ rest.length)
  return (rest.take size, rest.drop size)

/-- The first `count` fields of the data, and what follows them. -/
def takeFields : (count : Nat) → Bytes → Reading (List Bytes × Bytes)
  | 0, data => return ([], data)
  | count + 1, data => do
    let (field, rest) ← takeField data
    let (fields, rest) ← takeFields count rest
    return (field :: fields, rest)

/-- All fields of the data, of which the last one may be cut short. Up to four bytes at the end are
none. -/
def fields (data : Bytes) : List Bytes :=
  if data.length ≤ 4 then []
  else
    let size := Bytes.toNat (data.take 4)
    let rest := data.drop 4
    rest.take size :: fields (rest.drop size)
termination_by data.length
decreasing_by
  simp only [List.length_drop]
  omega

/-- Whether the bytes count up from one. -/
def isCount (data : Bytes) : Bool :=
  data = (List.range data.length).map fun i => UInt8.ofNat (i + 1)

end Rsa.Wire

end VerifiedBoot
