import VerifiedBoot.Proofs.Descriptor.Span
import VerifiedBoot.Proofs.Image.Reading

/-!
# Which images have a blob

An image that was read can be written again, whatever was changed in it within the ranges of its
fields: unsigned, or signed with a key of the size that its algorithm asks for. Writing it fails for
two reasons only. A body may be kept as it is and be no whole words, and the blob may be longer than
memory lasts when it is filled up to its alignment.
-/

namespace VerifiedBoot

namespace Image

/-- Whether what is taken over when an image is written fits its fields. -/
structure Writable (image : Image) : Prop where
  header : image.header.InRange
  descriptors : ∀ d ∈ image.descriptors, d.InRange

/-- The bytes of an unsigned image, before they are filled up to an alignment. -/
def unsignedSize (image : Image) : Nat :=
  Header.size + (blockSize (Descriptor.spanAll image.descriptors)).toNat

/-- The bytes of an image that is signed with an algorithm, before they are filled up to an
alignment. -/
def signedSize (image : Image) (algorithm : Algorithm) : Nat :=
  Header.size + (blockSize algorithm.authenticationSize).toNat +
    (blockSize (Descriptor.spanAll image.descriptors + algorithm.publicKeySize +
      (image.metadata.getD []).length)).toNat

/-- Whether a record of an image has a body that is not whole words. -/
def Unaligned (image : Image) : Prop :=
  ∃ d ∈ image.descriptors, d.Unaligned

variable {suite : Suite} {image : Image} {alignment : Int}

/-- An image that was read is writable. -/
theorem writable_of_parse {data : Bytes} (h : parse suite data = .ok image)
    (hdata : data.length < 1 <<< 63) : image.Writable := by
  obtain ⟨b, -, hblocks, hheader, -⟩ := parse_eq_ok h
  obtain ⟨hdecode, -⟩ := blocks_eq_ok.1 hblocks
  refine ⟨?_, (inRange_of_parse h hdata).descriptors⟩
  rw [hheader]
  exact Header.inRange_of_decode hdecode

/-- A blob for which there is room is aligned. -/
theorem exists_align {room : Nat} {blob : Bytes} (halign : 1 ≤ alignment)
    (hroom : Number.roundUp blob.length alignment ≤ (min room Bytes.maxSize : Nat)) :
    ∃ aligned, align room blob alignment = .ok aligned := by
  have hrequire : Bytes.requireRoom room (Number.roundUp blob.length alignment).toNat = .ok () :=
    Bytes.requireRoom_eq_ok.2 (by omega)
  exact ⟨_, Outcome.bind_eq_ok.2 ⟨_, if_neg (by omega), Outcome.bind_eq_ok.2 ⟨(), hrequire, rfl⟩⟩⟩

/-- The header of an unsigned image has bytes if the descriptors are not too many. -/
theorem holds_unsignedHeader {header : Header} (h : header.InRange) {descriptors : Nat}
    (hroom : (blockSize descriptors).toNat < 1 <<< 63) :
    Header.layout.Holds (unsignedHeader header descriptors).toRow := by
  obtain ⟨hmagic, hmajor, hminor, -, -, -, -, -, -, -, -, -, -, -, -, -, hrollback, hflags,
    hlocation, hrelease, hreserved, -⟩ := h.holds
  have hle := le_blockSize descriptors
  have hblock := blockSize_toNat descriptors
  have hzero : (0 : Int) ≤ 0 ∧ (0 : Int) < (1 <<< 64 : Nat) := by decide
  have hauxiliary : 0 ≤ blockSize descriptors ∧ blockSize descriptors < (1 <<< 64 : Nat) := by omega
  have hdescriptors : 0 ≤ (descriptors : Int) ∧ (descriptors : Int) < (1 <<< 64 : Nat) := by omega
  have halgorithm : (0 : Int) ≤ 0 ∧ (0 : Int) < (1 <<< 32 : Nat) := by decide
  exact ⟨hmagic, hmajor, hminor, hzero, hauxiliary, halgorithm, hzero, hzero, hzero, hzero, hzero,
    hzero, hzero, hzero, hzero, hdescriptors, hrollback, hflags, hlocation, hrelease, hreserved,
    trivial⟩

/-- The header of a signed image has bytes if the auxiliary block is not too long. -/
theorem holds_signedHeader {header : Header} (h : header.InRange) {algorithm : Algorithm}
    {descriptors key metadata : Nat}
    (hroom : (blockSize (descriptors + key + metadata)).toNat < 1 <<< 63) :
    Header.layout.Holds (signedHeader header algorithm descriptors key metadata).toRow := by
  obtain ⟨hmagic, hmajor, hminor, -, -, halgorithm, -, -, -, -, -, -, -, -, -, -, hrollback, hflags,
    hlocation, hrelease, hreserved, -⟩ := h.holds
  have hle := le_blockSize (descriptors + key + metadata)
  have hblock := blockSize_toNat (descriptors + key + metadata)
  have hauthentication : 0 ≤ blockSize algorithm.authenticationSize ∧
      blockSize algorithm.authenticationSize < (1 <<< 64 : Nat) := by
    rcases algorithm with _ | ⟨_ | _, _ | _ | _⟩ <;> decide
  have hhash : 0 ≤ (algorithm.hashSize : Int) ∧ (algorithm.hashSize : Int) < (1 <<< 64 : Nat) := by
    rcases algorithm with _ | ⟨_ | _, _ | _ | _⟩ <;> decide
  have hsignature : 0 ≤ (algorithm.signatureSize : Int) ∧
      (algorithm.signatureSize : Int) < (1 <<< 64 : Nat) := by
    rcases algorithm with _ | ⟨_ | _, _ | _ | _⟩ <;> decide
  have hauxiliary : 0 ≤ blockSize (descriptors + key + metadata) ∧
      blockSize (descriptors + key + metadata) < (1 <<< 64 : Nat) := by omega
  -- The offsets and sizes of the auxiliary block are those of parts of it.
  have hpart {n : Nat} (hn : n ≤ descriptors + key + metadata) :
      0 ≤ (n : Int) ∧ (n : Int) < (1 <<< 64 : Nat) := by omega
  have hzero : (0 : Int) ≤ 0 ∧ (0 : Int) < (1 <<< 64 : Nat) := by decide
  exact ⟨hmagic, hmajor, hminor, hauthentication, hauxiliary, halgorithm, hzero, hhash, hhash,
    hsignature, hpart (by omega), hpart (by omega), hpart (n := descriptors + key) (by omega),
    hpart (by omega), hzero, hpart (by omega), hrollback, hflags, hlocation, hrelease, hreserved,
    trivial⟩

theorem exists_descriptors (hw : image.Writable) (haligned : ¬image.Unaligned) :
    ∃ descriptors, Descriptor.encodeAll image.descriptors = .ok descriptors ∧
      descriptors.length = Descriptor.spanAll image.descriptors :=
  Descriptor.exists_encodeAll hw.descriptors fun d hd h => haligned ⟨d, hd, h⟩

/-- An image whose descriptors were written has no body that is not whole words. -/
theorem length_descriptors (hw : image.Writable) {descriptors : Bytes}
    (h : Descriptor.encodeAll image.descriptors = .ok descriptors) :
    ¬image.Unaligned ∧ descriptors.length = Descriptor.spanAll image.descriptors := by
  have haligned : ¬image.Unaligned := by
    rintro ⟨d, hd, hunaligned⟩
    obtain ⟨e, he⟩ := Descriptor.encodeAll_of_unaligned hd hunaligned
    cases h.symm.trans he
  obtain ⟨bytes, hbytes, hlength⟩ := exists_descriptors hw haligned
  rw [Outcome.ok_unique h hbytes]
  exact ⟨haligned, hlength⟩

/-- The bytes of an unsigned image. -/
theorem length_unsigned {descriptors head : Bytes}
    (hhead : (unsignedHeader image.header descriptors.length).encode = .ok head)
    (hlength : descriptors.length = Descriptor.spanAll image.descriptors) :
    (head ++ Bytes.padTo (blockSize descriptors.length).toNat descriptors).length =
      image.unsignedSize := by
  have hauxiliary := length_padTo_blockSize (Nat.le_refl descriptors.length)
  rw [List.length_append, Header.length_of_encode hhead, unsignedSize, ← hlength]
  omega

/-- An unsigned image is written from its header and its descriptors, and aligned. -/
theorem encodeUnsigned_eq_ok {suite : Suite} {image written : Image} {alignment : Int}
    {blob : Bytes} (h : image.encodeUnsigned suite alignment = (.ok blob, written)) :
    ∃ descriptors head, Descriptor.encodeAll image.descriptors = .ok descriptors ∧
      (unsignedHeader image.header descriptors.length).encode = .ok head ∧
      align suite.room (head ++ Bytes.padTo (blockSize descriptors.length).toNat descriptors)
        alignment = .ok blob ∧
      written = { image with
        header := unsignedHeader image.header descriptors.length
        publicKey := none
        metadata := some [] } := by
  unfold encodeUnsigned at h
  split at h
  · cases h
  · next descriptors hdescriptors =>
    obtain ⟨hblob, hwritten⟩ := Prod.mk.inj h
    obtain ⟨head, hhead, halign⟩ := Outcome.bind_eq_ok.1 hblob
    exact ⟨descriptors, head, hdescriptors, hhead, halign, hwritten.symm⟩

/-- **An unsigned image is written exactly if its bodies are whole words and there is room for its
blob.** -/
theorem encodeUnsigned_isOk_iff (hw : image.Writable) (halign : 1 ≤ alignment) :
    (∃ blob, (image.encodeUnsigned suite alignment).1 = .ok blob) ↔ ¬image.Unaligned ∧
      Number.roundUp image.unsignedSize alignment ≤ (min suite.room Bytes.maxSize : Nat) := by
  constructor
  · rintro ⟨blob, hblob⟩
    obtain ⟨descriptors, head, hdescriptors, hhead, haligned, -⟩ :=
      encodeUnsigned_eq_ok (Prod.ext hblob rfl)
    obtain ⟨hwhole, hlength⟩ := length_descriptors hw hdescriptors
    obtain ⟨-, -, hround, hlimit⟩ := align_eq_ok halign haligned
    rw [length_unsigned hhead hlength] at hround
    exact ⟨hwhole, by omega⟩
  · rintro ⟨hwhole, hroom⟩
    obtain ⟨descriptors, hdescriptors, hlength⟩ := exists_descriptors hw hwhole
    have hround := (@Number.roundUp_spec image.unsignedSize alignment (by omega)).1
    have hle : (blockSize descriptors.length).toNat < 1 <<< 63 := by
      rw [hlength]
      unfold unsignedSize at hround hroom
      exact @Bytes.lt_of_le_room suite.room _ (by omega)
    -- A blob for which there is room is too short for its sizes to leave their fields.
    obtain ⟨head, hhead⟩ : ∃ head,
        (unsignedHeader image.header descriptors.length).encode = .ok head :=
      Layout.exists_pack (holds_unsignedHeader hw.header hle)
    rw [← length_unsigned hhead hlength] at hroom
    obtain ⟨blob, hblob⟩ := exists_align halign hroom
    refine ⟨blob, ?_⟩
    unfold encodeUnsigned
    rw [hdescriptors]
    exact Outcome.bind_eq_ok.2 ⟨head, hhead, hblob⟩

section Signed

variable {signer : Rsa.Key} {family : DigestFamily} {size : KeySize} {key : PublicKey}
  (halgorithm : image.algorithm = .ok (.signed family size))
  (hkey : PublicKey.ofKey signer = .ok key) (hbits : key.bits = size.bits)

include halgorithm in
/-- The contents are for the algorithm of the image, and as many bytes as it asks for. -/
theorem signedSize_of_contents (hw : image.Writable) {c : Contents}
    (hc : image.contents signer = .ok c) : ¬image.Unaligned ∧ c.algorithm = .signed family size ∧
      image.signedSize (.signed family size) = Header.size +
        (blockSize c.algorithm.authenticationSize).toNat +
          (blockSize (c.descriptors.length + c.key.length + c.metadata.length)).toNat := by
  obtain ⟨hc₁, -, -, hlength, hdescriptors, hmetadata⟩ := contents_eq_ok hc
  obtain ⟨hwhole, hspan⟩ := length_descriptors hw hdescriptors
  have hsame := Outcome.ok_unique hc₁ halgorithm
  refine ⟨hwhole, hsame, ?_⟩
  rw [hspan, hlength, hmetadata, hsame, signedSize]

/-- The bytes of a signed image. -/
theorem length_signed {c : Contents} {head signature message : Bytes}
    (hc : image.contents signer = .ok c) (hhead : (c.header image.header).encode = .ok head)
    (hsignature : suite.sign signer c.digest message = .ok signature) :
    (head ++ c.authentication (suite.digest c.digest message) signature ++ c.auxiliary).length =
      Header.size + (blockSize c.algorithm.authenticationSize).toNat +
        (blockSize (c.descriptors.length + c.key.length + c.metadata.length)).toNat := by
  obtain ⟨hauthentication, hauxiliary⟩ := @length_blocks _ image _ _ _ hc _ hsignature
  change blockSize c.algorithm.authenticationSize = _ at hauthentication
  change blockSize (c.descriptors.length + c.key.length + c.metadata.length) = _ at hauxiliary
  rw [List.length_append, List.length_append, Header.length_of_encode hhead, hauthentication,
    hauxiliary, Int.toNat_natCast, Int.toNat_natCast]

include halgorithm in
/-- A blob has the bytes of the signed image, filled up to the alignment. -/
theorem length_of_encodeSigned (hw : image.Writable) (halign : 1 ≤ alignment) {blob : Bytes}
    (h : (image.encodeSigned suite signer alignment).1 = .ok blob) :
    ¬image.Unaligned ∧
      (blob.length : Int) = Number.roundUp (image.signedSize (.signed family size)) alignment ∧
      blob.length ≤ min suite.room Bytes.maxSize := by
  obtain ⟨c, head, signature, hc, hhead, hsignature, haligned, -⟩ :=
    encodeSigned_eq_ok (Prod.ext h rfl)
  obtain ⟨hwhole, -, hsize⟩ := signedSize_of_contents halgorithm hw hc
  obtain ⟨-, -, hround, hlimit⟩ := align_eq_ok halign haligned
  rw [length_signed hc hhead hsignature, ← hsize] at hround
  exact ⟨hwhole, hround, hlimit⟩

include halgorithm hkey hbits

/-- A key of the size that the algorithm asks for suits an image. -/
theorem exists_contents (hw : image.Writable) (hwhole : ¬image.Unaligned) :
    ∃ c, image.contents signer = .ok c := by
  obtain ⟨descriptors, hdescriptors, -⟩ := exists_descriptors hw hwhole
  have hrange : key.InRange := by
    unfold PublicKey.InRange
    rw [hbits]
    cases size <;> decide
  obtain ⟨data, hdata⟩ := PublicKey.exists_encode hrange
  have hlength : data.length = (Algorithm.signed family size).publicKeySize := by
    rw [PublicKey.length_of_encode hdata, hbits]
    rfl
  exact ⟨_, Outcome.bind_eq_ok.2 ⟨_, halgorithm, Outcome.bind_eq_ok.2 ⟨key, hkey,
    Outcome.bind_eq_ok.2 ⟨data, hdata, Outcome.guard_eq_ok.2 ⟨not_not.2 hlength,
      Outcome.bind_eq_ok.2 ⟨descriptors, hdescriptors, rfl⟩⟩⟩⟩⟩⟩

/-- **A signed image is written exactly if its bodies are whole words and there is room for its
blob**, with a key of the size that its algorithm asks for, which signs. -/
theorem encodeSigned_isOk_iff (hw : image.Writable) (halign : 1 ≤ alignment)
    (hsign : ∀ message, ∃ signature, suite.sign signer family message = .ok signature) :
    (∃ blob, (image.encodeSigned suite signer alignment).1 = .ok blob) ↔ ¬image.Unaligned ∧
      Number.roundUp (image.signedSize (.signed family size)) alignment ≤
        (min suite.room Bytes.maxSize : Nat) := by
  constructor
  · rintro ⟨blob, hblob⟩
    obtain ⟨hwhole, hlength, hlimit⟩ := length_of_encodeSigned halgorithm hw halign hblob
    exact ⟨hwhole, by omega⟩
  · rintro ⟨hwhole, hroom⟩
    obtain ⟨c, hc⟩ := exists_contents halgorithm hkey hbits hw hwhole
    obtain ⟨-, hsame, hsize⟩ := signedSize_of_contents halgorithm hw hc
    have hfamily : c.digest = family := by
      injection hsame
    have hround := (@Number.roundUp_spec (image.signedSize (.signed family size)) alignment
      (by omega)).1
    have hle : (blockSize (c.descriptors.length + c.key.length + c.metadata.length)).toNat <
        1 <<< 63 := @Bytes.lt_of_le_room suite.room _ (by omega)
    obtain ⟨head, hhead⟩ : ∃ head, (c.header image.header).encode = .ok head :=
      Layout.exists_pack (holds_signedHeader hw.header hle)
    obtain ⟨signature, hsignature⟩ := hsign (head ++ c.auxiliary)
    rw [← hfamily] at hsignature
    rw [hsize, ← length_signed hc hhead hsignature] at hroom
    obtain ⟨blob, hblob⟩ := exists_align halign hroom
    have hsigned : (do
        let head ← (c.header image.header).encode
        let message := head ++ c.auxiliary
        let signature ← suite.sign signer c.digest message
        return head ++ c.authentication (suite.digest c.digest message) signature ++
          c.auxiliary) = .ok _ :=
      Outcome.bind_eq_ok.2 ⟨head, hhead, Outcome.bind_eq_ok.2 ⟨signature, hsignature, rfl⟩⟩
    refine ⟨blob, ?_⟩
    unfold encodeSigned
    simp only [hc, hsigned]
    exact hblob

end Signed

end Image

end VerifiedBoot
