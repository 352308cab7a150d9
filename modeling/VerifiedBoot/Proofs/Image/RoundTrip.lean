import VerifiedBoot.Proofs.Image.Encodable
import VerifiedBoot.Proofs.KeyPair

/-!
# Images are read back

An image whose fields are in range is read back from what was written for it, signed or not, for
every alignment: header, descriptors, key and metadata are those of the image that writing leaves
behind. That image is the one that was to be written, but for sizes, offsets and key, and without a
signature but for algorithm and metadata. This holds of whatever edits led to the image, since it
asks for nothing but the ranges.
-/

namespace VerifiedBoot

namespace Header

/-- Whether two headers agree on the fields that writing keeps. The algorithm is not among them, nor
are the sizes and offsets. -/
structure SameKept (a b : Header) : Prop where
  magic : a.magic = b.magic
  majorVersion : a.majorVersion = b.majorVersion
  minorVersion : a.minorVersion = b.minorVersion
  rollbackIndex : a.rollbackIndex = b.rollbackIndex
  flags : a.flags = b.flags
  rollbackIndexLocation : a.rollbackIndexLocation = b.rollbackIndexLocation
  releaseString : a.releaseString = b.releaseString
  reserved : a.reserved = b.reserved

end Header

namespace Image

/-- Whether two images have the same contents, whatever they were read with. -/
structure SameContents (a b : Image) : Prop where
  header : a.header = b.header
  descriptors : a.descriptors = b.descriptors
  publicKey : a.publicKey = b.publicKey
  metadata : a.metadata = b.metadata

/-- Whether two images agree on what is written without a signature. -/
structure SameUnsigned (a b : Image) : Prop where
  header : a.header.SameKept b.header
  descriptors : a.descriptors = b.descriptors

/-- Whether two images agree on what is written with a signature. Absent metadata counts as
empty. -/
structure SameSigned (a b : Image) : Prop extends SameUnsigned a b where
  algorithmType : a.header.algorithmType = b.header.algorithmType
  metadata : a.metadata.getD [] = b.metadata.getD []

/-- What an unsigned image is read back as. -/
def unsignedImage (image : Image) (descriptors : Nat) : Image where
  header := unsignedHeader image.header descriptors
  descriptors := image.descriptors
  publicKey := none
  metadata := some []
  authentication := some ⟨none, none, false⟩

/-- The header of an unsigned image is read back if the descriptors are not too long. -/
theorem decode_unsignedHeader {image : Image} {descriptors : Nat} {head : Bytes}
    (hr : image.InRange) (hhead : (unsignedHeader image.header descriptors).encode = .ok head)
    (hroom : blockSize descriptors < (1 <<< 63 : Nat)) :
    Header.decode head = .ok (unsignedHeader image.header descriptors) := by
  have hshape : (unsignedHeader image.header descriptors).Shaped :=
    ⟨hr.header.magic, hr.header.releaseString, hr.header.reserved⟩
  have hle := le_blockSize descriptors
  have hextents :
      ∀ e ∈ (unsignedHeader image.header descriptors).extents, e.2 < (1 <<< 63 : Nat) := by
    simp only [Header.extents, unsignedHeader, List.forall_mem_cons]
    refine ⟨?_, ?_, ?_, ?_, ?_, ?_, ?_, ?_, ?_, ?_, ?_, ?_, by simp⟩
    all_goals omega
  have halgorithm : (unsignedHeader image.header descriptors).algorithm = .ok .unsigned := rfl
  have hdecode := Header.decode_encode hhead
    (Header.inRange_of_encode hhead hshape hextents halgorithm) []
  rwa [List.append_nil] at hdecode

/-- The header of an unsigned image and a list of descriptors are read as an image, whatever
follows. -/
theorem parse_unsigned {suite : Suite} {image : Image} {head descriptors : Bytes}
    (hhead : head.length = Header.size)
    (hdecode : Header.decode head = .ok (unsignedHeader image.header descriptors.length))
    (hall : Descriptor.decodeAll descriptors = .ok image.descriptors) (rest : Bytes) :
    parse suite (head ++ (Bytes.padTo (blockSize descriptors.length).toNat descriptors ++ rest)) =
      .ok (unsignedImage image descriptors.length) := by
  have hauxiliary := length_padTo_blockSize (Nat.le_refl descriptors.length)
  have hblocks := @blocks_append _ head [] _ hhead hdecode rfl hauxiliary.symm rest
  rw [parse_eq]
  refine Outcome.bind_eq_ok.2 ⟨_, hblocks, Outcome.bind_eq_ok.2 ⟨.unsigned, rfl, ?_⟩⟩
  refine Outcome.bind_eq_ok.2 ⟨none, rfl, Outcome.bind_eq_ok.2 ⟨[], ?_, ?_⟩⟩
  · exact @sliceBlock_append [] [] _ _ _ _ rfl rfl
  refine Outcome.bind_eq_ok.2 ⟨none, rfl, Outcome.bind_eq_ok.2 ⟨none, rfl, ?_⟩⟩
  refine Outcome.bind_eq_ok.2 ⟨descriptors, ?_, ?_⟩
  · exact @sliceBlock_append [] _ _ _ _ _ rfl rfl
  exact Outcome.bind_eq_ok.2 ⟨image.descriptors, hall, rfl⟩

/-- An unsigned image is read back, whatever follows it. -/
theorem parse_encodeUnsigned {suite : Suite} {image written : Image} {alignment : Int}
    {blob : Bytes} (h : image.encodeUnsigned suite alignment = (.ok blob, written))
    (hr : image.InRange) (halign : 1 ≤ alignment) :
    ∃ descriptors, written = { image with
        header := unsignedHeader image.header descriptors
        publicKey := none
        metadata := some [] } ∧
      ∀ rest, parse suite (blob ++ rest) = .ok (unsignedImage image descriptors) := by
  obtain ⟨descriptors, head, hdescriptors, hhead, haligned, hwritten⟩ := encodeUnsigned_eq_ok h
  obtain ⟨hblob, hle, -, hlimit⟩ := align_eq_ok halign haligned
  have hauxiliary := length_padTo_blockSize (Nat.le_refl descriptors.length)
  rw [List.length_append] at hle
  have hroom := Bytes.lt_of_le_room hlimit
  have hdecode := decode_unsignedHeader hr hhead (by omega)
  have hall := Descriptor.decodeAll_encodeAll hdescriptors hr.descriptors
    (show ([] : Bytes).length < 16 by decide)
  rw [List.append_nil] at hall
  refine ⟨descriptors.length, hwritten, fun rest => ?_⟩
  rw [Bytes.padTo] at hblob
  rw [hblob, List.append_assoc, List.append_assoc]
  exact parse_unsigned (Header.length_of_encode hhead) hdecode hall _

/-- An unsigned image that can be written is read back from what is written. -/
theorem exists_parse_encodeUnsigned {suite : Suite} {image : Image} {alignment : Int}
    (hok : (image.encodeUnsigned suite alignment).1.toBool = true) (hr : image.InRange)
    (halign : 1 ≤ alignment) : ∃ (blob : Bytes) (n : Nat),
      (image.encodeUnsigned suite alignment).1 = .ok blob ∧
      (image.encodeUnsigned suite alignment).2.header.descriptorsSize = n ∧
      parse suite blob = .ok (unsignedImage image n) := by
  obtain ⟨blob, written, hwritten⟩ := Outcome.exists_of_toBool hok
  obtain ⟨n, hn, hparse⟩ := @parse_encodeUnsigned suite _ _ _ _ hwritten hr halign
  have hparsed := hparse []
  rw [List.append_nil] at hparsed
  refine ⟨blob, n, ?_, ?_, hparsed⟩
  · rw [hwritten]
  · rw [hwritten, hn]
    rfl

/-- An unsigned image is read back from the bytes that it has. -/
theorem parse_getD_encodeUnsigned {suite : Suite} {image : Image} {alignment : Int} {n : Nat}
    (hok : (image.encodeUnsigned suite alignment).1.toBool = true)
    (hsize : (image.encodeUnsigned suite alignment).2.header.descriptorsSize = n)
    (hr : image.InRange) (halign : 1 ≤ alignment) :
    parse suite ((image.encodeUnsigned suite alignment).1.toOption.getD []) =
      .ok (unsignedImage image n) := by
  obtain ⟨blob, m, hblob, hm, hparse⟩ := @exists_parse_encodeUnsigned suite _ _ hok hr halign
  obtain rfl := Int.ofNat_inj.1 (hm.symm.trans hsize)
  rw [hblob]
  exact hparse

theorem sameUnsigned_of_encodeUnsigned {suite : Suite} {image written : Image} {alignment : Int}
    {blob : Bytes} (h : image.encodeUnsigned suite alignment = (.ok blob, written)) :
    image.SameUnsigned written := by
  obtain ⟨descriptors, -, -, -, -, rfl⟩ := encodeUnsigned_eq_ok h
  exact ⟨⟨rfl, rfl, rfl, rfl, rfl, rfl, rfl, rfl⟩, rfl⟩

/-- What signing leaves behind agrees with the image that was signed. -/
theorem sameSigned_of_encodeSigned {suite : Suite} {image written : Image} {signer : Rsa.Key}
    {alignment : Int} {blob : Bytes}
    (h : image.encodeSigned suite signer alignment = (.ok blob, written)) :
    image.SameSigned written := by
  obtain ⟨c, -, -, -, -, -, -, rfl⟩ := encodeSigned_eq_ok h
  exact ⟨⟨⟨rfl, rfl, rfl, rfl, rfl, rfl, rfl, rfl⟩, rfl⟩, rfl, rfl⟩

/-- Descriptors in range make an image in range, if nothing else is set. -/
theorem inRange_of_descriptors {descriptors : List Descriptor} (h : ∀ d ∈ descriptors, d.InRange) :
    { empty with descriptors := descriptors }.InRange :=
  ⟨⟨rfl, rfl, rfl⟩, h, rfl⟩

/-- **An image is read back from its bytes.** A signed one comes with the public half of the key and
with the digest of header and auxiliary block, an unsigned one with neither key nor signature. What
is read is what writing leaves behind, and that agrees with the image on all that is written of
it. -/
theorem parse_encode {suite : Suite} {image : Image} {alignment : Int} (hr : image.InRange)
    (halign : 1 ≤ alignment) :
    (∀ signer blob written, image.encodeSigned suite signer alignment = (.ok blob, written) →
      ∃ parsed publicKey family keySize, parse suite blob = .ok parsed ∧
        parsed.SameContents written ∧ image.SameSigned written ∧
        parsed.publicKey = some publicKey ∧
        PublicKey.ofKey signer = .ok publicKey ∧ parsed.algorithm = .ok (.signed family keySize) ∧
        parsed.authentication.bind (·.digest) = some (suite.digest family
          (blob.take Header.size ++ Bytes.slice blob
            (Header.size + parsed.header.authenticationSize.toNat)
            parsed.header.auxiliarySize.toNat))) ∧
    (∀ blob written, image.encodeUnsigned suite alignment = (.ok blob, written) →
      ∃ parsed, parse suite blob = .ok parsed ∧ parsed.SameContents written ∧
        image.SameUnsigned written ∧ parsed.algorithm = .ok .unsigned ∧
        parsed.publicKey = none ∧ parsed.metadata = some [] ∧
        parsed.authentication = some ⟨none, none, false⟩ ∧ parsed.signatureValid = false) := by
  constructor
  · intro signer blob written h
    have hkept := sameSigned_of_encodeSigned h
    obtain ⟨c, head, signature, behind, hc, hhead, hsignature, rfl, hblob, hparse⟩ :=
      parse_encodeSigned h hr halign
    obtain ⟨halgorithm, hpublic, -, -, -, hmetadata⟩ := contents_eq_ok hc
    obtain ⟨hauthentication, hauxiliary⟩ := length_blocks hc hsignature
    have hparsed := hparse []
    rw [List.append_nil] at hparsed
    refine ⟨_, c.publicKey, c.digest, c.keySize, hparsed, ⟨rfl, rfl, rfl, ?_⟩, hkept, rfl,
      hpublic, halgorithm, ?_⟩
    · obtain ⟨metadata, hsome⟩ := Option.isSome_iff_exists.1 hr.metadata
      simp only [signedImage, hmetadata, hsome, Option.getD_some]
    -- The message that is signed is what stands in the blob: header and auxiliary block.
    · have htake : blob.take Header.size = head := by
        rw [hblob, List.take_left' hhead]
      have hsizes : Header.size + (c.header image.header).authenticationSize.toNat = (head ++
          c.authentication (suite.digest c.digest (head ++ c.auxiliary)) signature).length := by
        rw [hauthentication, List.length_append, hhead, Int.toNat_natCast]
      have hslice : Bytes.slice blob
          (Header.size + (c.header image.header).authenticationSize.toNat)
          (c.header image.header).auxiliarySize.toNat = c.auxiliary := by
        rw [hsizes, hauxiliary, Int.toNat_natCast, hblob, ← List.append_assoc, Bytes.slice,
          List.drop_left, List.take_left]
      simp only [signedImage, htake, hslice]
      rfl
  · intro blob written h
    have hkept := sameUnsigned_of_encodeUnsigned h
    obtain ⟨descriptors, rfl, hparse⟩ := parse_encodeUnsigned h hr halign
    have hparsed := hparse []
    rw [List.append_nil] at hparsed
    exact ⟨_, hparsed, ⟨rfl, rfl, rfl, rfl⟩, hkept, rfl, rfl, rfl, rfl, rfl⟩

/-- An image with records of several kinds, to be signed with a key of up to 2048 bits. -/
def mixedImage : Image where
  header := { Header.empty with algorithmType := 1, rollbackIndex := 7 }
  descriptors := [
    .property ⟨Bytes.ofString "version", [1, 2]⟩,
    .hash ⟨3, "sha256", "boot", [9], Bytes.zeros 32, 0, Bytes.zeros 60⟩,
    .cmdline ⟨1, "ro"⟩,
    .chain ⟨2, "system", none, 0, Bytes.zeros 60⟩,
    .unknown ⟨some 9, Bytes.zeros 8⟩]
  publicKey := none
  metadata := some [1, 2, 3]
  authentication := none

/-- The fields of the image with several kinds of records are in range. -/
theorem inRange_mixedImage : mixedImage.InRange where
  header := ⟨rfl, by decide +kernel, by decide⟩
  descriptors := by
    simp only [mixedImage, List.forall_mem_cons]
    refine ⟨⟨by decide +kernel⟩, ⟨?_, ?_, ?_, ?_, ?_, ?_, ?_⟩, ⟨?_, ?_⟩, ⟨?_, ?_, nofun, ?_, ?_⟩,
      ⟨⟨9, rfl, ?_, ?_⟩, ?_⟩, by simp⟩
    all_goals decide +kernel
  metadata := rfl

/-- The image with several kinds of records can be written. -/
theorem writable_mixedImage : mixedImage.Writable where
  header :=
    have hdecode : Header.decode (mixedImage.header.encode.toOption.getD []) =
      .ok mixedImage.header := by decide +kernel
    Header.inRange_of_decode hdecode
  descriptors := inRange_mixedImage.descriptors

/-- Every key of 2048 bits signs the image with several kinds of records. -/
theorem exists_encodeSigned_mixedImage {pair : KeyPair} (h : pair.Consistent)
    (hbits : pair.bits = KeySize.rsa2048.bits) :
    ∃ blob written, mixedImage.encodeSigned .standard pair.rsa 64 = (.ok blob, written) := by
  have hwhole : ¬mixedImage.Unaligned := by
    rintro ⟨d, hd, hunaligned⟩
    simp only [mixedImage, List.mem_cons, List.not_mem_nil, or_false] at hd
    rcases hd with rfl | rfl | rfl | rfl | rfl
    · exact hunaligned
    · exact hunaligned
    · exact hunaligned
    · exact hunaligned
    · exact hunaligned rfl
  have hroom : Number.roundUp (mixedImage.signedSize (.signed .sha256 .rsa2048)) 64 ≤
      (min Suite.standard.room Bytes.maxSize : Nat) := by
    decide +kernel
  obtain ⟨blob, hblob⟩ := (encodeSigned_isOk_iff rfl h.publicKey hbits writable_mixedImage
    (by decide) (Suite.signs_ofDigests h hbits .sha256)).2 ⟨hwhole, hroom⟩
  exact ⟨blob, _, Prod.ext hblob rfl⟩

/-- Both ways of writing the image with several kinds of records succeed, and both blobs are read
back. -/
theorem parse_encode_mixedImage :
    (mixedImage.InRange ∧ (1 : Int) ≤ 64) ∧
      (∃ blob written parsed,
        mixedImage.encodeSigned .standard Rsa.smoothKey 64 = (.ok blob, written) ∧
          parse .standard blob = .ok parsed ∧ parsed.SameContents written ∧
          mixedImage.SameSigned written) ∧
      ∃ blob written parsed, mixedImage.encodeUnsigned .standard 64 = (.ok blob, written) ∧
        parse .standard blob = .ok parsed ∧ parsed.SameContents written ∧
        mixedImage.SameUnsigned written := by
  have halign : (1 : Int) ≤ 64 := by decide
  obtain ⟨hsigned, hunsigned⟩ := @parse_encode .standard mixedImage 64 inRange_mixedImage halign
  refine ⟨⟨inRange_mixedImage, halign⟩, ?_, ?_⟩
  · obtain ⟨blob, written, hwritten⟩ :=
      exists_encodeSigned_mixedImage KeyPair.consistent_smooth KeyPair.ofKey_smoothKey.2.1
    obtain ⟨parsed, -, -, -, hparse, hsame, hkept, -⟩ := hsigned _ blob written hwritten
    exact ⟨blob, written, parsed, hwritten, hparse, hsame, hkept⟩
  · have hok : (mixedImage.encodeUnsigned .standard 64).1.toBool = true := by
      decide +kernel
    obtain ⟨blob, written, hwritten⟩ := Outcome.exists_of_toBool hok
    obtain ⟨parsed, hparse, hsame, hkept, -⟩ := hunsigned blob written hwritten
    exact ⟨blob, written, parsed, hwritten, hparse, hsame, hkept⟩

end Image

end VerifiedBoot
