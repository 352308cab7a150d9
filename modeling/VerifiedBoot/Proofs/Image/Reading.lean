import VerifiedBoot.Proofs.Image.Signed

/-!
# What is read is in range

Whatever bytes an image is read from, its fields fit the fields that they came from, so the image
can be written again. A signature counts as valid only in an image that embeds a key.
-/

namespace VerifiedBoot

namespace Image

/-- What an image is read from, and what its signature was checked against. -/
theorem parse_eq_ok {suite : Suite} {data : Bytes} {image : Image}
    (h : parse suite data = .ok image) :
    ∃ b slice, blocks data = .ok b ∧ image.header = b.header ∧
      embeddedKey b = .ok image.publicKey ∧ image.metadata.isSome ∧
      sliceBlock b.auxiliary b.header.descriptorsOffset b.header.descriptorsSize "Descriptors" =
        .ok slice ∧ Descriptor.decodeAll slice = .ok image.descriptors ∧
      ∃ algorithm digest signature, b.header.algorithm = .ok algorithm ∧
        sliceBlock? b.authentication b.header.hashOffset b.header.hashSize "Hash" = .ok digest ∧
        sliceBlock? b.authentication b.header.signatureOffset b.header.signatureSize "Signature" =
          .ok signature ∧
        image.authentication = some ⟨digest, signature,
          checkSignature suite algorithm (b.head ++ b.auxiliary) digest signature
            image.publicKey⟩ := by
  rw [parse_eq] at h
  obtain ⟨b, hblocks, h₁⟩ := Outcome.bind_eq_ok.1 h
  obtain ⟨algorithm, halgorithm, h₂⟩ := Outcome.bind_eq_ok.1 h₁
  obtain ⟨key, hkey, h₃⟩ := Outcome.bind_eq_ok.1 h₂
  obtain ⟨metadata, -, h₄⟩ := Outcome.bind_eq_ok.1 h₃
  obtain ⟨digest, hdigest, h₅⟩ := Outcome.bind_eq_ok.1 h₄
  obtain ⟨signature, hsignature, h₆⟩ := Outcome.bind_eq_ok.1 h₅
  obtain ⟨slice, hslice, h₇⟩ := Outcome.bind_eq_ok.1 h₆
  obtain ⟨descriptors, hdescriptors, h₈⟩ := Outcome.bind_eq_ok.1 h₇
  obtain rfl := Except.ok.inj h₈
  exact ⟨b, slice, hblocks, rfl, hkey, rfl, hslice, hdescriptors, algorithm, digest, signature,
    halgorithm, hdigest, hsignature, rfl⟩

/-- A signature passes if there are an algorithm that signs, the digest of the message, and a key
that the signature verifies with. -/
theorem checkSignature_eq_true {suite : Suite} {algorithm : Algorithm} {message : Bytes}
    {digest signature : Option Bytes} {key : Option PublicKey} :
    checkSignature suite algorithm message digest signature key = true ↔
      ∃ family size key' signature', algorithm = .signed family size ∧ key = some key' ∧
        digest = some (suite.digest family message) ∧ signature = some signature' ∧
        suite.verify key' family message signature' = true := by
  constructor
  · intro h
    unfold checkSignature at h
    split at h
    · next family size digest signature key =>
      rw [Bool.and_eq_true, decide_eq_true_eq] at h
      exact ⟨family, size, key, signature, rfl, rfl, congrArg some h.1, rfl, h.2⟩
    · cases h
  · rintro ⟨family, size, key, signature, rfl, rfl, rfl, rfl, hverify⟩
    simp only [checkSignature, decide_true, Bool.true_and, hverify]

/-- A signature counts as valid only in an image that embeds a key. -/
theorem publicKey_of_signatureValid {suite : Suite} {data : Bytes} {image : Image}
    (h : parse suite data = .ok image) (hvalid : image.signatureValid = true) :
    ∃ key, image.publicKey = some key := by
  obtain ⟨b, slice, -, -, -, -, -, -, algorithm, digest, signature, -, -, -, hauthentication⟩ :=
    parse_eq_ok h
  rw [signatureValid, hauthentication] at hvalid
  obtain ⟨-, -, key, -, -, hkey, -⟩ := checkSignature_eq_true.1 hvalid
  exact ⟨key, hkey⟩

/-- Every image that can be read begins with the mark of images. -/
theorem take_of_parse {suite : Suite} {data : Bytes} {image : Image}
    (h : parse suite data = .ok image) : data.take 4 = Header.signature := by
  obtain ⟨b, slice, hblocks, -⟩ := parse_eq_ok h
  obtain ⟨hheader, -⟩ := blocks_eq_ok.1 hblocks
  obtain ⟨hrow, hmagic, -⟩ := Header.decode_eq_ok.1 hheader
  obtain ⟨-, hrow⟩ := Layout.unpack_eq_ok.1 hrow
  have hfirst : (data.take Header.size).take 4 = b.header.magic := congrArg Prod.fst hrow
  rw [← hmagic, ← hfirst, List.take_take]
  rfl

/-- An image that was read is in range. -/
theorem inRange_of_parse {suite : Suite} {data : Bytes} {image : Image}
    (h : parse suite data = .ok image) (hdata : data.length < 1 <<< 63) : image.InRange := by
  obtain ⟨b, slice, hblocks, hheader, -, hmetadata, hslice, hdescriptors, -⟩ := parse_eq_ok h
  obtain ⟨hdecode, -, hb⟩ := blocks_eq_ok.1 hblocks
  -- The descriptors are a slice of a slice of the data.
  have hlength : b.auxiliary.length ≤ data.length := by
    rw [hb, auxiliaryIn, Bytes.length_slice]
    omega
  refine ⟨?_, Descriptor.inRange_of_decodeAll hdescriptors ?_, hmetadata⟩
  · rw [hheader]
    exact (Header.inRange_of_decode hdecode).shaped
  · unfold sliceBlock at hslice
    split at hslice
    · cases hslice
    · obtain rfl := Except.ok.inj hslice
      rw [Bytes.length_slice]
      omega

/-- A key that was read is in range. -/
theorem publicKey_inRange_of_parse {suite : Suite} {data : Bytes} {image : Image} {key : PublicKey}
    (h : parse suite data = .ok image) (hkey : image.publicKey = some key) : key.InRange := by
  obtain ⟨b, slice, -, -, hembedded, -⟩ := parse_eq_ok h
  obtain ⟨blob, -, h₁⟩ := Outcome.bind_eq_ok.1 hembedded
  rw [hkey] at h₁
  cases blob with
  | none => cases h₁
  | some blob =>
    obtain ⟨key', hdecode, h₂⟩ := Outcome.bind_eq_ok.1 h₁
    obtain rfl := Option.some.inj (Except.ok.inj h₂)
    exact PublicKey.inRange_of_decode hdecode

end Image

end VerifiedBoot
