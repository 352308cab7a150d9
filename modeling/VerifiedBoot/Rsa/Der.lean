import VerifiedBoot.Rsa.Reading

/-!
# Tagged binary elements

Keys in files are nested elements, each a tag byte, a length and a payload. Lengths above 127 are
written with their own number of bytes in front and without leading zeros. A sequence is an
element whose payload is a list of elements.
-/

namespace VerifiedBoot

namespace Rsa.Der

/-- One element. -/
structure Element where
  tag : UInt8
  payload : Bytes
  deriving DecidableEq, Repr

/-- The length at the head of the data, and what follows it. A length of which not a single byte is
written makes the data unreadable. -/
def takeLength : Bytes → Reading (Nat × Bytes)
  | [] => .error .otherForm
  | first :: rest =>
    if first.toNat ≤ 127 then .ok (first.toNat, rest)
    else
      let width := first.toNat % 128
      let digits := rest.take width
      let size := Bytes.toNat digits
      if width = 0 then .error .unreadable
      else if rest.length < width ∨ digits.head? = some 0 ∨ size ≤ 127 then .error .otherForm
      else .ok (size, rest.drop width)

/-- The element at the head of the data, and what follows it. -/
def takeElement : Bytes → Reading (Element × Bytes)
  | [] => .error .otherForm
  | tag :: rest => do
    let (size, body) ← takeLength rest
    if body.length < size then throw .otherForm
    return (⟨tag, body.take size⟩, body.drop size)

/-- All elements of the data, of which there are at most `limit`. -/
def elements : (limit : Nat) → Bytes → Reading (List Element)
  | _, [] => .ok []
  | 0, _ :: _ => .error .otherForm
  | limit + 1, b :: data => do
    let (element, rest) ← takeElement (b :: data)
    let others ← elements limit rest
    return element :: others

/-- The payload of the element at the head of the data, which has to have the tag, and what follows
it. -/
def takeTagged (tag : UInt8) (data : Bytes) : Reading (Bytes × Bytes) := do
  Reading.require (data.head? = some tag)
  let (element, rest) ← takeElement data
  return (element.payload, rest)

/-- The payload of the one element that the data is. -/
def payload (tag : UInt8) (data : Bytes) : Reading Bytes := do
  let (payload, rest) ← takeTagged tag data
  Reading.require rest.isEmpty
  return payload

/-- The members of the one sequence that the data is. -/
def sequence (data : Bytes) : Reading (List Element) := do
  let (payload, rest) ← takeTagged 0x30 data
  let members ← elements payload.length payload
  Reading.require rest.isEmpty
  return members

/-- The numbers in an identifier: seven bits a byte, of which the last one of each number is below
128. A number that is not finished counts for nothing. -/
def components : (held : Nat) → Bytes → List Nat
  | _, [] => []
  | held, b :: rest =>
    let number := held * 128 + b.toNat % 128
    if b.toNat < 128 then number :: components 0 rest else components number rest

/-- The number that bytes denote whose first bit is the sign. -/
def signed : Bytes → Int
  | [] => 0
  | first :: rest =>
    let magnitude := Bytes.toNat (first :: rest)
    if first.toNat < 128 then magnitude
    else magnitude - (1 <<< (8 * (rest.length + 1)) : Nat)

namespace Element

/-- The payload, if the element has the tag. -/
def content (element : Element) (tag : UInt8) : Reading Bytes := do
  Reading.require (element.tag = tag)
  return element.payload

/-- The members of a sequence. -/
def members (element : Element) : Reading (List Element) := do
  let payload ← element.content 0x30
  elements payload.length payload

/-- The number of an element that is an integer. -/
def integer? (element : Element) : Option Int :=
  if element.tag = 0x02 then some (signed element.payload) else none

/-- The number of an element that is an integer and not negative. -/
def natural (element : Element) : Reading Nat :=
  match element.integer? with
  | some (.ofNat n) => .ok n
  | _ => .error .otherForm

/-- The numbers of an identifier, of which there is at least one. -/
def identifier (element : Element) : Reading (List Nat) := do
  let numbers := components 0 (← element.content 0x06)
  Reading.require !numbers.isEmpty
  return numbers

end Element

end Rsa.Der

end VerifiedBoot
