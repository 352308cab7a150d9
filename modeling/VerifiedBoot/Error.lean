import VerifiedBoot.Descriptor.Kind
import VerifiedBoot.Text.Quoted

/-!
# Errors

Every operation that can fail says why with a value of `Error`, one constructor a cause. Three
families are *domain errors*, which a user can act on: data that is malformed, a request that is
refused, and a chain of trust that cannot be repaired. The others come from the operations
underneath: arithmetic, numbers that a field cannot hold, streams that end, files that are absent.

`Error.message` is the one place where the wording is fixed.
-/

namespace VerifiedBoot

/-- Ways in which bytes are not the structure that they are read as. -/
inductive Malformation where
  /-- Fewer bytes than the fixed part of the structure. -/
  | truncated
  /-- The sign bit of an unsigned field is set. -/
  | overflow (field : String) (bits : Int) (value : Int)
  | unknownAlgorithm (code : Int)
  /-- The declared size of a key is zero or not a whole number of bytes. -/
  | keySize (bits : Int)
  | keyLength (actual expected : Nat)
  | keyModulusSize
  | keyModulusEven
  | footerLength
  | footerMagic
  | headerMagic
  | headerLength
  /-- The blocks that the header declares are longer than the data. -/
  | blocksPastEnd
  /-- A slice that the header declares is not within its block. -/
  | outsideBlock (slice : String)
  | descriptorTag (expected actual : Int)
  | descriptorSize
  | descriptorBody (kind : DescriptorKind)
  /-- A part of a descriptor is longer than the descriptor. -/
  | pastDescriptor (part : String)
  | unterminated (part : String)
  | notUtf8 (part : String)
  deriving DecidableEq, Repr

/-- Requests that are understood and turned down. -/
inductive Refusal where
  | keyExponent
  | keyModulus
  | keyNotPrivate
  | keyUnreadable
  /-- Signing with the algorithm that does not sign. -/
  | unsignedAlgorithm
  | keyWrongSize (algorithm : String)
  | noAlgorithm (digest : String) (bits : Int)
  | hashNameLength (name : String)
  | unalignedBody (size : Nat)
  | noRoom (size : Nat) (partition : String)
  | patternFixed (pattern : String)
  | partitionName (name : String)
  | outputPattern
  deriving DecidableEq, Repr

/-- Reasons why a chain of trust cannot be re-established. -/
inductive RepairFailure where
  | unverified (partition : String)
  | invalidData (partition : String)
  | unknownIssue (label : String)
  | tooManySteps
  | noSigningKey (partition : String)
  | unsignable (partition : String)
  | wrongDescriptor (index : Int) (partition : String) (expected : DescriptorKind)
  deriving DecidableEq, Repr

/-- Why an operation failed. -/
inductive Error where
  | malformed (cause : Malformation)
  | refused (cause : Refusal)
  | unrepairable (cause : RepairFailure)
  /-- A stream ended this many bytes early. -/
  | streamEnded (missing : Int)
  /-- A read from a partition returned nothing although bytes were left to read. -/
  | partitionEnded (partition : String)
  | divisionByZero
  /-- A number that has to be inverted has no inverse. -/
  | noInverse
  /-- A number needs more bytes than it is given. -/
  | numberTooWide
  /-- A value is not in the range of its field. -/
  | fieldRange
  | negativeWidth
  | negativePosition
  /-- A size or a position is a number of more than 63 bits. -/
  | sizeTooLarge
  /-- There is no memory for so many bytes. -/
  | outOfMemory
  /-- A number has more digits than are read or written. -/
  | tooManyDigits
  /-- A value is needed that was not given. -/
  | valueMissing (name : String)
  /-- A key of so few bits is never generated. -/
  | weakKey (bits : Nat)
  /-- The signature that was made does not verify. -/
  | signatureFault
  | noPrivatePart
  /-- The modulus has no room for the digest. -/
  | digestTooLong
  /-- The digest has no length of its own. -/
  | digestUnsized (algorithm : String)
  | indexRange (index : Int)
  | partitionMissing (partition : String)
  | fileMissing (path : String)
  /-- There is a directory where a file is wanted. -/
  | isFolder (path : String)
  /-- A part of the path that has to be a directory is a file. -/
  | notFolder (path : String)
  /-- A directory cannot be made because a file has its path. -/
  | fileExists (path : String)
  /-- The path or a part of it is longer than paths can be. -/
  | nameTooLong (path : String)
  /-- The path holds the character that ends paths. -/
  | nulInPath (path : String)
  /-- No freshly generated key of the wanted size is at hand. -/
  | noFreshKey (bits : Nat)
  deriving DecidableEq, Repr

namespace Malformation

/-- A number in hexadecimal with its mark, the sign in front. -/
def hexNumber (n : Int) : String :=
  (if n < 0 then "-0x" else "0x") ++ String.ofList (Nat.toDigits 16 n.natAbs)

/-- The text for a malformed structure. -/
def message : Malformation → String
  | truncated => "Truncated data"
  | overflow field bits value => s!"{field} overflows signed int{bits}: {hexNumber value}"
  | unknownAlgorithm code => s!"Unknown algorithm type {code}"
  | keySize bits => s!"Invalid key size {bits}"
  | keyLength actual expected => s!"Public key blob is {actual} bytes, expected {expected}"
  | keyModulusSize => "Public key modulus does not match key size"
  | keyModulusEven => "Public key modulus is even"
  | footerLength => "Footer must be 64 bytes"
  | footerMagic => "Given data does not look like a AVB footer."
  | headerMagic => "AVB header magic mismatch"
  | headerLength => "Truncated vbmeta header"
  | blocksPastEnd => "vbmeta data blocks run past end of image"
  | outsideBlock slice => s!"{slice} lies outside its data block"
  | descriptorTag expected actual => s!"Expected descriptor tag {expected}, got {actual}"
  | descriptorSize => "Descriptor size overflow"
  | descriptorBody kind => s!"Descriptor body too small for {kind.label}"
  | pastDescriptor part => s!"{part} runs past end of descriptor"
  | unterminated part => s!"{part} without NUL terminator"
  | notUtf8 part => s!"{part} is not valid UTF-8"

end Malformation

namespace Refusal

/-- The text for a request that is turned down. -/
def message : Refusal → String
  | keyExponent => "Only RSA keys with exponent 65537 are supported."
  | keyModulus => "Invalid RSA modulus"
  | keyNotPrivate => "Only RSA private keys are supported"
  | keyUnreadable => "Not an RSA key"
  | unsignedAlgorithm => "Cannot sign a vbmeta image with algorithm NONE"
  | keyWrongSize algorithm => s!"Key is wrong size for algorithm {algorithm}"
  | noAlgorithm digest bits => s!"No {digest} algorithm for {bits}-bit keys"
  | hashNameLength name =>
    s!"Hash algorithm name {Text.quote name} is longer than 32 bytes"
  | unalignedBody size => s!"Descriptor body of {size} bytes is not 8-byte aligned"
  | noRoom size partition => s!"vbmeta of {size} bytes does not fit in partition {partition}"
  | patternFixed pattern =>
    s!"Partition pattern {Text.quote pattern} has no \x7bname\x7d placeholder"
  | partitionName name => s!"Invalid partition name {Text.quote name}"
  | outputPattern =>
    "--output-dir needs the \x7bname\x7d placeholder in the file name part of the pattern"

end Refusal

namespace RepairFailure

/-- The text for a chain of trust that cannot be re-established. -/
def message : RepairFailure → String
  | unverified partition => s!"vbmeta image for partition {partition} was not verified"
  | invalidData partition => s!"Cannot fix invalid data in partition {partition}"
  | unknownIssue label => s!"Unknown issue {label}"
  | tooManySteps => "Too many fix iterations, possible infinite loop"
  | noSigningKey partition => s!"No signing key for formerly signed partition {partition}"
  | unsignable partition => s!"Unable to fix signature of partition {partition}"
  | wrongDescriptor index partition expected =>
    s!"Descriptor {index} of partition {partition} is not a {expected.label}"

end RepairFailure

namespace Error

/-- The text that says why an operation failed. -/
def message : Error → String
  | malformed cause => cause.message
  | refused cause => cause.message
  | unrepairable cause => cause.message
  | streamEnded missing => s!"Unexpected end of stream ({missing} bytes missing)"
  | partitionEnded partition => s!"Unexpected end of partition {partition}"
  | divisionByZero => "Division by zero"
  | noInverse => "No inverse"
  | numberTooWide => "Number too wide for its bytes"
  | fieldRange => "Value out of the range of its field"
  | negativeWidth => "Negative number of bits"
  | negativePosition => "Negative position in a file"
  | sizeTooLarge => "Size or position out of range"
  | outOfMemory => "Out of memory"
  | tooManyDigits => "A number has too many digits"
  | valueMissing name => s!"No value for {name}"
  | weakKey bits => s!"A key of {bits} bits is too small"
  | signatureFault => "The signature does not verify"
  | noPrivatePart => "The key has no private part"
  | digestTooLong => "The digest is too long for the key"
  | digestUnsized algorithm => s!"The digest {algorithm} has no length of its own"
  | indexRange index => s!"No element at index {index}"
  | partitionMissing partition => s!"No partition {partition}"
  | fileMissing path => s!"No such file or directory: {path}"
  | isFolder path => s!"Is a directory: {path}"
  | notFolder path => s!"Not a directory: {path}"
  | fileExists path => s!"File exists: {path}"
  | nameTooLong path => s!"File name too long: {path}"
  | nulInPath path => s!"NUL in path: {path}"
  | noFreshKey bits => s!"No fresh key of {bits} bits"

/-- Whether the error is one of the domain: the data, the request or the chain is at fault, and
not an operation underneath. -/
def isDomain : Error → Bool
  | malformed _ | refused _ | unrepairable _ => true
  | _ => false

end Error

end VerifiedBoot
