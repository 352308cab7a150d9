import VerifiedBoot.Descriptor.Codec
import VerifiedBoot.Digest.Sha1
import VerifiedBoot.Text.Lossy

/-!
# Descriptors as text

`describe` lists the fields of a record, one a line, for people. `toText` shows a record with all
its fields in the order of their names, for messages. Both fail on a key that has no encoding,
because they show a digest of the encoded key.
-/

namespace VerifiedBoot

namespace Descriptor

/-- Lines, each closed with a line feed. -/
def unlines (lines : List String) : String :=
  String.join (lines.map (· ++ "\n"))

/-- Bytes of fewer than 256 are shown, more are counted. -/
def describeProperty (d : PropertyDescriptor) : List String :=
  let key := Text.lossy d.key
  if d.value.length < 256 then [s!"    Prop: {key} -> {Text.quoteBytes d.value}"]
  else [s!"    Prop: {key} -> ({d.value.length} bytes)"]

/-- The fields of a hash tree. -/
def describeHashtree (d : HashtreeDescriptor) : List String := [
  "    Hashtree descriptor:",
  s!"      Version of dm-verity:  {d.dmVerityVersion}",
  s!"      Image Size:            {d.imageSize} bytes",
  s!"      Tree Offset:           {d.treeOffset}",
  s!"      Tree Size:             {d.treeSize} bytes",
  s!"      Data Block Size:       {d.dataBlockSize} bytes",
  s!"      Hash Block Size:       {d.hashBlockSize} bytes",
  s!"      FEC num roots:         {d.fecNumRoots}",
  s!"      FEC offset:            {d.fecOffset}",
  s!"      FEC size:              {d.fecSize} bytes",
  s!"      Hash Algorithm:        {d.hashAlgorithm}",
  s!"      Partition Name:        {d.partitionName}",
  s!"      Salt:                  {Bytes.hex d.salt}",
  s!"      Root Digest:           {Bytes.hex d.rootDigest}",
  s!"      Flags:                 {d.flags}"]

/-- The fields of a hash. -/
def describeHash (d : HashDescriptor) : List String := [
  "    Hash descriptor:",
  s!"      Image Size:            {d.imageSize} bytes",
  s!"      Hash Algorithm:        {d.hashAlgorithm}",
  s!"      Partition Name:        {d.partitionName}",
  s!"      Salt:                  {Bytes.hex d.salt}",
  s!"      Digest:                {Bytes.hex d.digest}",
  s!"      Flags:                 {d.flags}"]

/-- The fields of a kernel command line. -/
def describeCmdline (d : CmdlineDescriptor) : List String := [
  "    Kernel Cmdline descriptor:",
  s!"      Flags:                 {d.flags}",
  s!"      Kernel Cmdline:        {Text.quote d.kernelCmdline}"]

/-- The fields of a chained partition; the key is shown by its SHA-1 digest, which is short. -/
def describeChain (d : ChainDescriptor) : Except Error (List String) := do
  let key ← encodeKey d.publicKey
  return [
    "    Chain Partition descriptor:",
    s!"      Partition Name:          {d.partitionName}",
    s!"      Rollback Index Location: {d.rollbackIndexLocation}",
    s!"      Public key (sha1):       {Bytes.hex (Digest.Sha1.sha1 key)}",
    s!"      Flags:                   {d.flags}"]

/-- A tag as text. -/
def tagText : Option Int → String
  | none => "None"
  | some tag => toString tag

/-- The tag and the body of a record that is kept as it is. -/
def describeUnknown (d : UnknownDescriptor) : List String := [
  "    Unknown descriptor:",
  s!"      Tag:  {tagText d.tag}",
  if d.data.length < 256 then
    s!"      Data: {Text.quoteBytes d.data} ({d.data.length} bytes)"
  else s!"      Data: {d.data.length} bytes"]

/-- The fields of a record, for people. -/
def describe : Descriptor → Except Error String
  | property d => .ok (unlines (describeProperty d))
  | hashtree d => .ok (unlines (describeHashtree d))
  | hash d => .ok (unlines (describeHash d))
  | cmdline d => .ok (unlines (describeCmdline d))
  | chain d => unlines <$> describeChain d
  | unknown d => .ok (unlines (describeUnknown d))

/-- The name of a kind with named values behind it. -/
def labelled (kind : DescriptorKind) (fields : List (String × String)) : String :=
  kind.label ++ "(" ++ ", ".intercalate (fields.map fun f => f.1 ++ "=" ++ f.2) ++ ")"

/-- A record with all its fields in the order of their names. -/
def toText : Descriptor → Except Error String
  | property d => .ok <| labelled .property [
      ("key", Text.quoteBytes d.key), ("value", Text.quoteBytes d.value)]
  | hashtree d => .ok <| labelled .hashtree [
      ("data_block_size", toString d.dataBlockSize),
      ("dm_verity_version", toString d.dmVerityVersion),
      ("fec_num_roots", toString d.fecNumRoots),
      ("fec_offset", toString d.fecOffset),
      ("fec_size", toString d.fecSize),
      ("flags", toString d.flags),
      ("hash_algorithm", Text.quote d.hashAlgorithm),
      ("hash_block_size", toString d.hashBlockSize),
      ("image_size", toString d.imageSize),
      ("partition_name", Text.quote d.partitionName),
      ("reserved", Text.quoteBytes d.reserved),
      ("root_digest", Text.quoteBytes d.rootDigest),
      ("salt", Text.quoteBytes d.salt),
      ("tree_offset", toString d.treeOffset),
      ("tree_size", toString d.treeSize)]
  | hash d => .ok <| labelled .hash [
      ("digest", Text.quoteBytes d.digest),
      ("flags", toString d.flags),
      ("hash_algorithm", Text.quote d.hashAlgorithm),
      ("image_size", toString d.imageSize),
      ("partition_name", Text.quote d.partitionName),
      ("reserved", Text.quoteBytes d.reserved),
      ("salt", Text.quoteBytes d.salt)]
  | cmdline d => .ok <| labelled .cmdline [
      ("flags", toString d.flags), ("kernel_cmdline", Text.quote d.kernelCmdline)]
  | chain d => do
      let key ← match d.publicKey with
        | none => pure "None"
        | some key => key.toText
      return labelled .chain [
        ("flags", toString d.flags),
        ("partition_name", Text.quote d.partitionName),
        ("public_key", key),
        ("reserved", Text.quoteBytes d.reserved),
        ("rollback_index_location", toString d.rollbackIndexLocation)]
  | unknown d => .ok <| labelled .unknown [
      ("data", Text.quoteBytes d.data), ("tag", tagText d.tag)]

end Descriptor

end VerifiedBoot
