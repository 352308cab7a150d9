import VerifiedBoot.Proofs.Image.RoundTrip

/-!
# Writing forgets the layout it finds

The sizes and offsets that a header carries are those of an earlier reading or writing. None of them
reaches the bytes that are written next, and neither does the embedded key: two images that agree on
the rest are written to the same blob, or refused with the same error. So writing an image once more
changes nothing, whether it is taken as it was left behind or read back from its blob.
-/

namespace VerifiedBoot

namespace Image

variable {suite : Suite} {a b image written : Image} {signer : Rsa.Key} {alignment : Int}
  {blob : Bytes}

theorem unsignedHeader_congr {a b : Header} (h : a.SameKept b) (n : Nat) :
    unsignedHeader a n = unsignedHeader b n := by
  simp only [unsignedHeader, h.magic, h.majorVersion, h.minorVersion, h.rollbackIndex, h.flags,
    h.rollbackIndexLocation, h.releaseString, h.reserved]

theorem header_congr {a b : Header} (h : a.SameKept b)
    (halgorithm : a.algorithmType = b.algorithmType) (c : Contents) :
    c.header a = c.header b := by
  simp only [Contents.header, signedHeader, halgorithm, h.magic, h.majorVersion, h.minorVersion,
    h.rollbackIndex, h.flags, h.rollbackIndexLocation, h.releaseString, h.reserved]

theorem contents_congr (h : a.SameSigned b) (signer : Rsa.Key) :
    a.contents signer = b.contents signer := by
  simp only [contents, algorithm, Header.algorithm, h.algorithmType, h.metadata, h.descriptors]

/-- Images that agree on what is written without a signature get the same blob or the same
error. -/
theorem encodeUnsigned_congr (h : a.SameUnsigned b) (suite : Suite) (alignment : Int) :
    (a.encodeUnsigned suite alignment).1 = (b.encodeUnsigned suite alignment).1 := by
  simp only [encodeUnsigned, h.descriptors, unsignedHeader_congr h.header]
  split
  · rfl
  · rfl

/-- Images that agree on what is written with a signature get the same blob or the same error. -/
theorem encodeSigned_congr (h : a.SameSigned b) (suite : Suite) (signer : Rsa.Key)
    (alignment : Int) :
    (a.encodeSigned suite signer alignment).1 = (b.encodeSigned suite signer alignment).1 := by
  simp only [encodeSigned, contents_congr h, header_congr h.header h.algorithmType]
  split
  · rfl
  · split
    · rfl
    · rfl

/-- An image that agrees with one that was written unsigned is left behind with the same header. -/
theorem encodeUnsigned_of_sameUnsigned (h : a.SameUnsigned b)
    (ha : a.encodeUnsigned suite alignment = (.ok blob, written)) :
    b.encodeUnsigned suite alignment =
      (.ok blob, { b with header := written.header, publicKey := none, metadata := some [] }) := by
  have hblob := encodeUnsigned_congr h suite alignment
  rw [ha] at hblob
  have hb : b.encodeUnsigned suite alignment = (.ok blob, (b.encodeUnsigned suite alignment).2) :=
    Prod.ext hblob.symm rfl
  obtain ⟨descriptors, -, hdescriptors, -, -, rfl⟩ := encodeUnsigned_eq_ok ha
  obtain ⟨descriptors', -, hdescriptors', -, -, hwritten⟩ := encodeUnsigned_eq_ok hb
  rw [← h.descriptors, hdescriptors] at hdescriptors'
  obtain rfl := Except.ok.inj hdescriptors'
  rw [hb, hwritten, unsignedHeader_congr h.header]

/-- An image that agrees with one that was signed is left behind with the same header and the same
key. -/
theorem encodeSigned_of_sameSigned (h : a.SameSigned b)
    (ha : a.encodeSigned suite signer alignment = (.ok blob, written)) :
    b.encodeSigned suite signer alignment =
      (.ok blob, { b with header := written.header, publicKey := written.publicKey }) := by
  have hblob := encodeSigned_congr h suite signer alignment
  rw [ha] at hblob
  have hb : b.encodeSigned suite signer alignment =
      (.ok blob, (b.encodeSigned suite signer alignment).2) := Prod.ext hblob.symm rfl
  obtain ⟨c, -, -, hc, -, -, -, rfl⟩ := encodeSigned_eq_ok ha
  obtain ⟨c', -, -, hc', -, -, -, hwritten⟩ := encodeSigned_eq_ok hb
  rw [← contents_congr h, hc] at hc'
  obtain rfl := Except.ok.inj hc'
  rw [hb, hwritten, header_congr h.header h.algorithmType]

theorem sameUnsigned_unsignedImage (image : Image) (n : Nat) :
    image.SameUnsigned (unsignedImage image n) :=
  ⟨⟨rfl, rfl, rfl, rfl, rfl, rfl, rfl, rfl⟩, rfl⟩

theorem sameSigned_signedImage {c : Contents} (hc : image.contents signer = .ok c) (suite : Suite)
    (head signature : Bytes) : image.SameSigned (signedImage suite image c head signature) := by
  obtain ⟨-, -, -, -, -, hmetadata⟩ := contents_eq_ok hc
  exact ⟨⟨⟨rfl, rfl, rfl, rfl, rfl, rfl, rfl, rfl⟩, rfl⟩, rfl, hmetadata.symm⟩

/-- **Writing is stable.** Images that agree on what is written get the same blob or the same error,
whatever their sizes, offsets and keys were; an unsigned one also whatever its algorithm and its
metadata. What a successful writing leaves behind, and what is read from its blob, are both written
to the same blob again, and are left as they are. -/
theorem encode_stable {suite : Suite} {alignment : Int} :
    (∀ (a b : Image) signer, a.SameSigned b →
      (a.encodeSigned suite signer alignment).1 = (b.encodeSigned suite signer alignment).1) ∧
    (∀ a b : Image, a.SameUnsigned b →
      (a.encodeUnsigned suite alignment).1 = (b.encodeUnsigned suite alignment).1) ∧
    ∀ (image written : Image) signer blob,
      image.encode suite signer alignment = (.ok blob, written) →
        written.encode suite signer alignment = (.ok blob, written) ∧
        (image.InRange → 1 ≤ alignment → ∃ parsed, parse suite blob = .ok parsed ∧
          parsed.encode suite signer alignment = (.ok blob, parsed)) := by
  refine ⟨fun a b signer h => encodeSigned_congr h suite signer alignment,
    fun a b h => encodeUnsigned_congr h suite alignment, ?_⟩
  intro image written signer blob h
  cases signer with
  | none =>
    change image.encodeUnsigned suite alignment = _ at h
    -- Both what is left behind and what is read agree with the image on all that is written.
    have hagain := encodeUnsigned_of_sameUnsigned (sameUnsigned_of_encodeUnsigned h) h
    constructor
    · obtain ⟨descriptors, -, -, -, -, rfl⟩ := encodeUnsigned_eq_ok h
      exact hagain
    · intro hr halign
      obtain ⟨descriptors, rfl, hparse⟩ := @parse_encodeUnsigned suite _ _ _ _ h hr halign
      have hparsed := hparse []
      rw [List.append_nil] at hparsed
      exact ⟨_, hparsed,
        encodeUnsigned_of_sameUnsigned (sameUnsigned_unsignedImage image descriptors) h⟩
  | some signer =>
    change image.encodeSigned suite signer alignment = _ at h
    constructor
    · exact encodeSigned_of_sameSigned (sameSigned_of_encodeSigned h) h
    · intro hr halign
      obtain ⟨c, head, signature, -, hc, -, -, rfl, -, hparse⟩ := parse_encodeSigned h hr halign
      have hparsed := hparse []
      rw [List.append_nil] at hparsed
      exact ⟨_, hparsed,
        encodeSigned_of_sameSigned (sameSigned_signedImage hc suite head signature) h⟩

/-- The image with several kinds of records, with sizes and offsets that belong to no layout of it
and with a key that it was not signed with. -/
def staleImage : Image :=
  { mixedImage with
    header := { mixedImage.header with
      authenticationSize := 576
      auxiliarySize := -1
      hashOffset := 512
      hashSize := 64
      signatureOffset := 1
      signatureSize := 512
      publicKeyOffset := 8
      publicKeySize := 1032
      metadataOffset := 7
      metadataSize := 9
      descriptorsOffset := 4096
      descriptorsSize := 1 }
    publicKey := some ⟨15, by decide, by decide⟩ }

/-- The stale image with another algorithm and without metadata. -/
def strayImage : Image :=
  { staleImage with header := { staleImage.header with algorithmType := 5 }, metadata := none }

/-- The image with several kinds of records is signed to one blob, by itself, in its stale form, as
it is left behind and as it is read; without a signature the stray form is written like it. -/
theorem encode_stable_staleImage :
    (staleImage.SameSigned mixedImage ∧ strayImage.SameUnsigned mixedImage ∧
      mixedImage.InRange ∧ (1 : Int) ≤ 64) ∧
    (strayImage.encodeUnsigned .standard 64).1 = (mixedImage.encodeUnsigned .standard 64).1 ∧
    ∃ blob written, mixedImage.encode .standard (some Rsa.smoothKey) 64 = (.ok blob, written) ∧
      (staleImage.encodeSigned .standard Rsa.smoothKey 64).1 = .ok blob ∧
      written.encode .standard (some Rsa.smoothKey) 64 = (.ok blob, written) ∧
      ∃ parsed, parse .standard blob = .ok parsed ∧
        parsed.encode .standard (some Rsa.smoothKey) 64 = (.ok blob, parsed) := by
  have hstale : staleImage.SameSigned mixedImage :=
    ⟨⟨⟨rfl, rfl, rfl, rfl, rfl, rfl, rfl, rfl⟩, rfl⟩, rfl, rfl⟩
  have hstray : strayImage.SameUnsigned mixedImage :=
    ⟨⟨rfl, rfl, rfl, rfl, rfl, rfl, rfl, rfl⟩, rfl⟩
  have halign : (1 : Int) ≤ 64 := by decide
  obtain ⟨hsigned, hunsigned, hagain⟩ := @encode_stable .standard 64
  obtain ⟨blob, written, hwritten⟩ :=
    exists_encodeSigned_mixedImage KeyPair.consistent_smooth KeyPair.ofKey_smoothKey.2.1
  obtain ⟨hleft, hread⟩ := hagain mixedImage written (some Rsa.smoothKey) blob hwritten
  refine ⟨⟨hstale, hstray, inRange_mixedImage, halign⟩, hunsigned _ _ hstray, blob, written,
    hwritten, ?_, hleft, hread inRange_mixedImage halign⟩
  rw [hsigned _ _ _ hstale]
  exact congrArg Prod.fst hwritten

end Image

end VerifiedBoot
