import VerifiedBoot.Descriptor.Basic

/-!
# The binary form of descriptors

Every record begins with its tag and the number of bytes that follow. A kind with a layout of its
own has a fixed part, whose lengths say how the rest of the record is divided, and is filled up
with zeros to a multiple of eight bytes. A record with any other tag is kept byte by byte.

A record is decoded from exactly its own bytes, so nothing outside it can matter.
-/

namespace VerifiedBoot

namespace Descriptor

/-- The tag and the number of bytes that follow. -/
def preamble : Layout :=
  [word64, word64]

/-- The fixed part of a property, behind the preamble. -/
def propertyLayout : Layout :=
  [word64, word64]

/-- The fixed part of a hash tree, behind the preamble. -/
def hashtreeLayout : Layout :=
  [word32, word64, word64, word64, word32, word32, word32, word64, word64, .block 32, word32,
    word32, word32, word32, .block 60]

/-- The fixed part of a hash, behind the preamble. -/
def hashLayout : Layout :=
  [word64, .block 32, word32, word32, word32, word32, .block 60]

/-- The fixed part of a kernel command line, behind the preamble. -/
def cmdlineLayout : Layout :=
  [word32, word32]

/-- The fixed part of a chained partition, behind the preamble. -/
def chainLayout : Layout :=
  [word32, word32, word32, word32, .block 60]

/-- The bytes of the fixed part of a kind, with the preamble. -/
def fixedSize : DescriptorKind → Nat
  | .property => 16 + propertyLayout.size
  | .hashtree => 16 + hashtreeLayout.size
  | .hash => 16 + hashLayout.size
  | .cmdline => 16 + cmdlineLayout.size
  | .chain => 16 + chainLayout.size
  | .unknown => 16

/-! ### Writing -/

/-- A record with a tag: its fixed part and its variable part, filled up to a multiple of eight. -/
def encodeRecord (tag : Nat) (fixed rest : Bytes) : Except Error Bytes := do
  let size := fixed.length + rest.length
  let following := (Number.roundUp size 8).toNat
  let head ← preamble.pack ((tag : Int), (following : Int), ())
  return head ++ Bytes.padTo following (fixed ++ rest)

/-- The bytes of the name of a hash algorithm, which are at most 32. -/
def encodeHashName (name : String) : Except Error Bytes :=
  let encoded := Bytes.ofString name
  if 32 < encoded.length then .error (.refused (.hashNameLength name)) else .ok encoded

/-- The bytes of a property. -/
def encodeProperty (d : PropertyDescriptor) : Except Error Bytes := do
  let fixed ← propertyLayout.pack ((d.key.length : Int), (d.value.length : Int), ())
  encodeRecord 0 fixed (d.key ++ [0] ++ d.value ++ [0])

/-- The bytes of a hash tree. -/
def encodeHashtree (d : HashtreeDescriptor) : Except Error Bytes := do
  let name := Bytes.ofString d.partitionName
  let algorithm ← encodeHashName d.hashAlgorithm
  let fixed ← hashtreeLayout.pack (d.dmVerityVersion, d.imageSize, d.treeOffset, d.treeSize,
    d.dataBlockSize, d.hashBlockSize, d.fecNumRoots, d.fecOffset, d.fecSize, algorithm,
    (name.length : Int), (d.salt.length : Int), (d.rootDigest.length : Int), d.flags, d.reserved,
    ())
  encodeRecord 1 fixed (name ++ d.salt ++ d.rootDigest)

/-- The bytes of a hash. -/
def encodeHash (d : HashDescriptor) : Except Error Bytes := do
  let name := Bytes.ofString d.partitionName
  let algorithm ← encodeHashName d.hashAlgorithm
  let fixed ← hashLayout.pack (d.imageSize, algorithm, (name.length : Int), (d.salt.length : Int),
    (d.digest.length : Int), d.flags, d.reserved, ())
  encodeRecord 2 fixed (name ++ d.salt ++ d.digest)

/-- The bytes of a kernel command line. -/
def encodeCmdline (d : CmdlineDescriptor) : Except Error Bytes := do
  let text := Bytes.ofString d.kernelCmdline
  let fixed ← cmdlineLayout.pack (d.flags, (text.length : Int), ())
  encodeRecord 3 fixed text

/-- The bytes of the key in a chain descriptor, which may be absent. -/
def encodeKey : Option PublicKey → Except Error Bytes
  | none => .ok []
  | some key => key.encode

/-- The bytes of a chained partition. -/
def encodeChain (d : ChainDescriptor) : Except Error Bytes := do
  let name := Bytes.ofString d.partitionName
  let key ← encodeKey d.publicKey
  let fixed ← chainLayout.pack (d.rollbackIndexLocation, (name.length : Int), (key.length : Int),
    d.flags, d.reserved, ())
  encodeRecord 4 fixed (name ++ key)

/-- The bytes of a record that is kept as it is. Its body has to be whole words already. -/
def encodeUnknown (d : UnknownDescriptor) : Except Error Bytes :=
  if d.data.length % 8 ≠ 0 then .error (.refused (.unalignedBody d.data.length))
  else match d.tag with
    | none => .error .fieldRange
    | some tag => do
      let head ← preamble.pack (tag, (d.data.length : Int), ())
      return head ++ d.data

/-- The bytes of a record. -/
def encode : Descriptor → Except Error Bytes
  | property d => encodeProperty d
  | hashtree d => encodeHashtree d
  | hash d => encodeHash d
  | cmdline d => encodeCmdline d
  | chain d => encodeChain d
  | unknown d => encodeUnknown d

/-- The bytes of all records, one after the other. -/
def encodeAll : List Descriptor → Except Error Bytes
  | [] => .ok []
  | d :: rest => do
    let head ← encode d
    let tail ← encodeAll rest
    return head ++ tail

/-! ### Reading -/

/-- The first `size` bytes of what is left of a record, and the rest. -/
def takePart (part : String) (size : Int) (data : Bytes) : Except Error (Bytes × Bytes) :=
  if data.length < size then .error (.malformed (.pastDescriptor part))
  else .ok (data.take size.toNat, data.drop size.toNat)

/-- A zero byte that ends a part of a record. -/
def takeTerminator (part : String) (data : Bytes) : Except Error Bytes := do
  let (mark, rest) ← takePart (part ++ " terminator") 1 data
  if mark ≠ [0] then
    throw (.malformed (.unterminated part))
  return rest

/-- The text that a part of a record holds. -/
def decodeText (part : String) (data : Bytes) : Except Error String :=
  match Bytes.toString? data with
  | some text => .ok text
  | none => .error (.malformed (.notUtf8 part))

/-- The name of a hash algorithm: what stands before the first zero byte. -/
def decodeHashName (data : Bytes) : Except Error String :=
  decodeText "Hash algorithm" (data.takeWhile (· ≠ 0))

/-- The tag of the record at the head of the data, and its body without the preamble. The tag has
to be the one of the kind, and the body has to hold the kind's fixed part. -/
def openRecord (kind : DescriptorKind) (data : Bytes) : Except Error (Int × Bytes) := do
  let (tag, following, _) ← preamble.unpack data
  let following : Int ← checkUnsigned following 64 "num_bytes_following"
  let tag : Int := tag
  match kind.tag? with
  | some expected =>
    if tag ≠ (expected : Int) then
      throw (.malformed (.descriptorTag expected tag))
  | none => pure ()
  if data.length < 16 + following then
    throw (.malformed .descriptorSize)
  if 16 + following < fixedSize kind then
    throw (.malformed (.descriptorBody kind))
  return (tag, Bytes.slice data 16 following.toNat)

/-- The property at the head of the data. -/
def decodeProperty (data : Bytes) : Except Error PropertyDescriptor := do
  let (_, body) ← openRecord .property data
  let (keySize, valueSize, _) ← propertyLayout.unpack body
  let keySize : Int ← checkUnsigned keySize 64 "key_size"
  let valueSize : Int ← checkUnsigned valueSize 64 "value_size"
  let rest := body.drop propertyLayout.size
  let (key, rest) ← takePart "Property key" keySize rest
  let rest ← takeTerminator "Property key" rest
  let (value, rest) ← takePart "Property value" valueSize rest
  let _ ← takeTerminator "Property value" rest
  return { key, value }

/-- The hash tree at the head of the data. -/
def decodeHashtree (data : Bytes) : Except Error HashtreeDescriptor := do
  let (_, body) ← openRecord .hashtree data
  let (dmVerityVersion, imageSize, treeOffset, treeSize, dataBlockSize, hashBlockSize, fecNumRoots,
    fecOffset, fecSize, algorithm, nameSize, saltSize, digestSize, flags, reserved, _) ←
    hashtreeLayout.unpack body
  checkExtents [("image_size", imageSize), ("tree_offset", treeOffset), ("tree_size", treeSize),
    ("fec_offset", fecOffset), ("fec_size", fecSize)]
  let nameSize : Int ← checkUnsigned nameSize 32 "partition_name_len"
  let saltSize : Int ← checkUnsigned saltSize 32 "salt_len"
  let digestSize : Int ← checkUnsigned digestSize 32 "root_digest_len"
  let hashAlgorithm ← decodeHashName algorithm
  let rest := body.drop hashtreeLayout.size
  let (name, rest) ← takePart "Partition name" nameSize rest
  let partitionName ← decodeText "Partition name" name
  let (salt, rest) ← takePart "Salt" saltSize rest
  let (rootDigest, _) ← takePart "Root digest" digestSize rest
  return ⟨dmVerityVersion, imageSize, treeOffset, treeSize, dataBlockSize, hashBlockSize,
    fecNumRoots, fecOffset, fecSize, hashAlgorithm, partitionName, salt, rootDigest, flags,
    reserved⟩

/-- The hash at the head of the data. -/
def decodeHash (data : Bytes) : Except Error HashDescriptor := do
  let (_, body) ← openRecord .hash data
  let (imageSize, algorithm, nameSize, saltSize, digestSize, flags, reserved, _) ←
    hashLayout.unpack body
  checkExtents [("image_size", imageSize)]
  let nameSize : Int ← checkUnsigned nameSize 32 "partition_name_len"
  let saltSize : Int ← checkUnsigned saltSize 32 "salt_len"
  let digestSize : Int ← checkUnsigned digestSize 32 "digest_len"
  let hashAlgorithm ← decodeHashName algorithm
  let rest := body.drop hashLayout.size
  let (name, rest) ← takePart "Partition name" nameSize rest
  let partitionName ← decodeText "Partition name" name
  let (salt, rest) ← takePart "Salt" saltSize rest
  let (digest, _) ← takePart "Digest" digestSize rest
  return ⟨imageSize, hashAlgorithm, partitionName, salt, digest, flags, reserved⟩

/-- The kernel command line at the head of the data. -/
def decodeCmdline (data : Bytes) : Except Error CmdlineDescriptor := do
  let (_, body) ← openRecord .cmdline data
  let (flags, size, _) ← cmdlineLayout.unpack body
  let size : Int ← checkUnsigned size 32 "kernel_cmdline_length"
  let (text, _) ← takePart "Kernel cmdline" size (body.drop cmdlineLayout.size)
  let kernelCmdline ← decodeText "Kernel cmdline" text
  return ⟨flags, kernelCmdline⟩

/-- The key in a chain descriptor; an empty blob stands for no key. -/
def decodeKey (data : Bytes) : Except Error (Option PublicKey) :=
  if data.isEmpty then .ok none else some <$> PublicKey.decode data

/-- The chained partition at the head of the data. -/
def decodeChain (data : Bytes) : Except Error ChainDescriptor := do
  let (_, body) ← openRecord .chain data
  let (rollbackIndexLocation, nameSize, keySize, flags, reserved, _) ← chainLayout.unpack body
  let nameSize : Int ← checkUnsigned nameSize 32 "partition_name_len"
  let keySize : Int ← checkUnsigned keySize 32 "public_key_len"
  let rest := body.drop chainLayout.size
  let (name, rest) ← takePart "Partition name" nameSize rest
  let partitionName ← decodeText "Partition name" name
  let (key, _) ← takePart "Public key" keySize rest
  let publicKey ← decodeKey key
  return ⟨rollbackIndexLocation, partitionName, publicKey, flags, reserved⟩

/-- The record at the head of the data, kept as it is whatever its tag. -/
def decodeUnknown (data : Bytes) : Except Error UnknownDescriptor := do
  let (tag, body) ← openRecord .unknown data
  return { tag := some tag, data := body }

/-- The record of a given kind at the head of the data. -/
def decodeAs : DescriptorKind → Bytes → Except Error Descriptor
  | .property, data => property <$> decodeProperty data
  | .hashtree, data => hashtree <$> decodeHashtree data
  | .hash, data => hash <$> decodeHash data
  | .cmdline, data => cmdline <$> decodeCmdline data
  | .chain, data => chain <$> decodeChain data
  | .unknown, data => unknown <$> decodeUnknown data

/-- The record at the head of the data, of the kind that its tag selects. -/
def decode (data : Bytes) : Except Error Descriptor := do
  let (tag, _) ← preamble.unpack data
  decodeAs (DescriptorKind.ofTag tag) data

/-- The size of the record at the head of the data, which holds a preamble; the record has to be
within the data. -/
def recordSize (data : Bytes) : Except Error Nat := do
  let (_, following, _) ← preamble.unpack data
  let following : Int ← checkUnsigned following 64 "num_bytes_following"
  if data.length < 16 + following then
    throw (.malformed .descriptorSize)
  return 16 + following.toNat

/-- A record is longer than its tag. -/
theorem recordSize_pos {data : Bytes} {size : Nat} (h : recordSize data = .ok size) :
    16 ≤ size := by
  unfold recordSize at h
  cases hrow : preamble.unpack data with
  | error e => simp [hrow, bind, Except.bind] at h
  | ok row =>
    obtain ⟨tag, following, _⟩ := row
    simp only [hrow, bind, Except.bind] at h
    cases hfollowing : checkUnsigned following 64 "num_bytes_following" with
    | error e => simp [hfollowing] at h
    | ok n =>
      simp only [hfollowing] at h
      split at h
      · simp [throw, throwThe, MonadExceptOf.throw] at h
      · simp only [pure, Except.pure, Except.ok.injEq] at h
        omega

/-- All records of a descriptor list. It ends where fewer than 16 bytes are left. -/
def decodeAll (data : Bytes) : Except Error (List Descriptor) :=
  if data.length < 16 then .ok []
  else match _hsize : recordSize data with
    | .error e => .error e
    | .ok size => do
      let d ← decode (data.take size)
      let rest ← decodeAll (data.drop size)
      return d :: rest
termination_by data.length
decreasing_by
  have := recordSize_pos _hsize
  simp only [List.length_drop]
  omega

end Descriptor

end VerifiedBoot
