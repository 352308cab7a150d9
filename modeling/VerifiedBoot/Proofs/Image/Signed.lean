import VerifiedBoot.Proofs.Descriptor.RoundTrip
import VerifiedBoot.Proofs.Image.Blocks
import VerifiedBoot.Proofs.Signature

/-!
# Signed images are read back

A signed image is laid out as a header, a digest with a signature, and descriptors with a key and
metadata. Reading follows the offsets and sizes in the header, and finds every part where it was
put. Only the signature may come back longer than it was made: it is filled up with zeros to the
size that its algorithm asks for.
-/

namespace VerifiedBoot

namespace Image

/-- Whether the fields of an image fit the fields that they are written to. The numbers of the
header are not asked for: without room for them it has no bytes. -/
structure InRange (image : Image) : Prop where
  header : image.header.Shaped
  descriptors : ∀ d ∈ image.descriptors, d.InRange
  metadata : image.metadata.isSome

/-- What the contents for signing are made of. -/
theorem contents_eq_ok {image : Image} {signer : Rsa.Key} {c : Contents}
    (h : image.contents signer = .ok c) :
    image.algorithm = .ok c.algorithm ∧ PublicKey.ofKey signer = .ok c.publicKey ∧
      c.publicKey.encode = .ok c.key ∧ c.key.length = c.algorithm.publicKeySize ∧
      Descriptor.encodeAll image.descriptors = .ok c.descriptors ∧
      c.metadata = image.metadata.getD [] := by
  obtain ⟨algorithm, halgorithm, h₁⟩ := Outcome.bind_eq_ok.1 h
  cases algorithm with
  | unsigned => cases h₁
  | signed digest keySize =>
    obtain ⟨publicKey, hpublic, h₂⟩ := Outcome.bind_eq_ok.1 h₁
    obtain ⟨key, hkey, h₃⟩ := Outcome.bind_eq_ok.1 h₂
    obtain ⟨hlength, h₄⟩ := Outcome.guard_eq_ok.1 h₃
    obtain ⟨descriptors, hdescriptors, h₅⟩ := Outcome.bind_eq_ok.1 h₄
    obtain rfl := Except.ok.inj h₅
    exact ⟨halgorithm, hpublic, hkey, not_not.1 hlength, hdescriptors, rfl⟩

namespace Contents

variable {c : Contents}

/-- A key whose encoding has the length that an algorithm asks for has its number of bits. -/
theorem bits_eq (hkey : c.publicKey.encode = .ok c.key)
    (hlength : c.key.length = c.algorithm.publicKeySize) : c.publicKey.bits = c.keySize.bits := by
  have hdvd : 8 ∣ c.publicKey.bits :=
    Number.eight_dvd_roundUpPow2 (PublicKey.eight_le_bits_of_encode hkey)
  have hsize : 8 ∣ c.keySize.bits := by cases c.keySize <;> decide
  rw [PublicKey.length_of_encode hkey] at hlength
  change 8 + 2 * (c.publicKey.bits / 8) = 8 + 2 * (c.keySize.bits / 8) at hlength
  omega

/-- A signature is not longer than its algorithm asks for. -/
theorem signatureSize_le (hkey : c.publicKey.encode = .ok c.key)
    (hlength : c.key.length = c.algorithm.publicKeySize) :
    Rsa.Key.signatureSize c.publicKey.modulus ≤ c.algorithm.signatureSize := by
  have hbits := Number.le_roundUpPow2 (Number.bitLength c.publicKey.modulus)
  have hdvd : 8 ∣ c.publicKey.bits :=
    Number.eight_dvd_roundUpPow2 (PublicKey.eight_le_bits_of_encode hkey)
  change _ ≤ c.publicKey.bits at hbits
  rw [show c.algorithm.signatureSize = c.keySize.bits / 8 from rfl, ← bits_eq hkey hlength,
    Rsa.Key.signatureSize]
  omega

end Contents

end Image

namespace Bytes

theorem zeros_append (m n : Nat) : zeros m ++ zeros n = zeros (m + n) :=
  List.replicate_append_replicate

/-- What is filled up is first filled up to less. -/
theorem padTo_append {head data : Bytes} {width size : Nat} (hwidth : data.length ≤ width)
    (hsize : head.length + width ≤ size) :
    padTo size (head ++ data) =
      head ++ (fit width data ++ zeros (size - (head.length + width))) := by
  rw [padTo, fit, padTo, List.take_of_length_le hwidth, List.append_assoc, List.append_assoc,
    zeros_append, List.length_append]
  congr 3
  omega

end Bytes

namespace Image

/-- A signed image is written from its contents in three pieces, and aligned. -/
theorem encodeSigned_eq_ok {suite : Suite} {image written : Image} {signer : Rsa.Key}
    {alignment : Int} {blob : Bytes}
    (h : image.encodeSigned suite signer alignment = (.ok blob, written)) :
    ∃ c head signature, image.contents signer = .ok c ∧
      (c.header image.header).encode = .ok head ∧
      suite.sign signer c.digest (head ++ c.auxiliary) = .ok signature ∧
      align suite.room (head ++ c.authentication (suite.digest c.digest (head ++ c.auxiliary))
        signature ++ c.auxiliary) alignment = .ok blob ∧
      written = { image with header := c.header image.header, publicKey := some c.publicKey } := by
  unfold encodeSigned at h
  split at h
  · cases h
  · next c hc =>
    simp only at h
    split at h
    · cases h
    · next whole hsigned =>
      obtain ⟨halign, hwritten⟩ := Prod.mk.inj h
      obtain ⟨head, hhead, h₁⟩ := Outcome.bind_eq_ok.1 hsigned
      obtain ⟨signature, hsignature, h₂⟩ := Outcome.bind_eq_ok.1 h₁
      obtain rfl := Except.ok.inj h₂
      exact ⟨c, head, signature, hc, hhead, hsignature, halign, hwritten.symm⟩

/-- What a signed image is read back as. -/
def signedImage (suite : Suite) (image : Image) (c : Contents) (head signature : Bytes) :
    Image where
  header := c.header image.header
  descriptors := image.descriptors
  publicKey := some c.publicKey
  metadata := some c.metadata
  authentication :=
    let message := head ++ c.auxiliary
    let stored := Bytes.fit c.algorithm.signatureSize signature
    some {
      digest := some (suite.digest c.digest message)
      signature := some stored
      signatureValid := suite.verify c.publicKey c.digest message stored }

variable {suite : Suite} {image : Image} {signer : Rsa.Key} {c : Contents} {head signature : Bytes}

/-- A digest and a signature have the room that their algorithm asks for. -/
theorem length_digest_signature (hc : image.contents signer = .ok c) {message : Bytes}
    (hsignature : suite.sign signer c.digest message = .ok signature) :
    (suite.digest c.digest message).length = c.algorithm.hashSize ∧
      signature.length ≤ c.algorithm.signatureSize := by
  obtain ⟨-, hpublic, hkey, hlength, -⟩ := contents_eq_ok hc
  have hmodulus : c.publicKey.modulus = signer.modulus := PublicKey.modulus_of_ofNumbers hpublic
  have hfits := Contents.signatureSize_le hkey hlength
  rw [hmodulus] at hfits
  rw [suite.length_digest, suite.length_sign hsignature]
  exact ⟨rfl, hfits⟩

/-- The blocks of a signed image have the sizes that its header declares. -/
theorem length_blocks (hc : image.contents signer = .ok c) {message : Bytes}
    (hsignature : suite.sign signer c.digest message = .ok signature) :
    (c.header image.header).authenticationSize =
        (c.authentication (suite.digest c.digest message) signature).length ∧
      (c.header image.header).auxiliarySize = c.auxiliary.length := by
  obtain ⟨hdigest, hfits⟩ := length_digest_signature hc hsignature
  constructor
  · refine (length_padTo_blockSize ?_).symm
    rw [List.length_append, hdigest]
    exact Nat.add_le_add_left hfits _
  · have hdata : (c.descriptors ++ c.key ++ c.metadata).length =
        c.descriptors.length + c.key.length + c.metadata.length := by
      rw [List.length_append, List.length_append]
    have hsize := length_padTo_blockSize (Nat.le_of_eq hdata)
    rw [← hdata] at hsize
    rw [Contents.auxiliary, hsize, hdata]
    rfl

/-- The key, the metadata and the descriptors are found in the auxiliary block. -/
theorem slice_auxiliary (hkey : c.publicKey.encode = .ok c.key) (header : Header) :
    sliceBlock? c.auxiliary (c.header header).publicKeyOffset (c.header header).publicKeySize
        "Public key" = .ok (some c.key) ∧
      sliceBlock c.auxiliary (c.header header).metadataOffset (c.header header).metadataSize
        "Public key metadata" = .ok c.metadata ∧
      sliceBlock c.auxiliary (c.header header).descriptorsOffset
        (c.header header).descriptorsSize "Descriptors" = .ok c.descriptors := by
  have hkeySize : c.key.length ≠ 0 := by
    rw [PublicKey.length_of_encode hkey]
    omega
  -- The three parts in the order in which they stand, with the zeros behind them.
  have haux : c.auxiliary = c.descriptors ++ (c.key ++ (c.metadata ++ Bytes.zeros
      ((blockSize (c.descriptors ++ c.key ++ c.metadata).length).toNat -
        (c.descriptors ++ c.key ++ c.metadata).length))) := by
    rw [Contents.auxiliary, Bytes.padTo, List.append_assoc, List.append_assoc]
  have hmetadata : (c.header header).metadataOffset = (c.descriptors ++ c.key).length := by
    rw [List.length_append]
    rfl
  rw [haux]
  refine ⟨sliceBlock?_append rfl rfl hkeySize, ?_, ?_⟩
  · rw [← List.append_assoc]
    exact sliceBlock_append hmetadata rfl
  · exact @sliceBlock_append [] _ _ _ _ _ rfl rfl

/-- The digest and the signature in its room are found in the authentication block. -/
theorem slice_authentication (hc : image.contents signer = .ok c) {message : Bytes}
    (hsignature : suite.sign signer c.digest message = .ok signature) (header : Header) :
    sliceBlock? (c.authentication (suite.digest c.digest message) signature)
        (c.header header).hashOffset (c.header header).hashSize "Hash" =
        .ok (some (suite.digest c.digest message)) ∧
      sliceBlock? (c.authentication (suite.digest c.digest message) signature)
        (c.header header).signatureOffset (c.header header).signatureSize "Signature" =
        .ok (some (Bytes.fit c.algorithm.signatureSize signature)) := by
  obtain ⟨hdigest, hfits⟩ := length_digest_signature hc hsignature
  have hhash : c.algorithm.hashSize ≠ 0 := by
    change c.digest.size ≠ 0
    cases c.digest <;> decide
  have hroom : c.algorithm.signatureSize ≠ 0 := by
    change c.keySize.bits / 8 ≠ 0
    cases c.keySize <;> decide
  -- The block is filled up once; that is the same as to fill the room of the signature up first.
  have hauth := Bytes.padTo_append hfits (le_of_eq_of_le
    (congrArg (· + c.algorithm.signatureSize) hdigest)
    (le_blockSize c.algorithm.authenticationSize))
  rw [Contents.authentication, hauth]
  refine ⟨@sliceBlock?_append [] _ _ _ _ _ rfl (congrArg Int.ofNat hdigest.symm) (by omega), ?_⟩
  refine sliceBlock?_append (congrArg Int.ofNat hdigest.symm) ?_ ?_
  · rw [Bytes.length_fit]
    rfl
  · rw [Bytes.length_fit]
    exact hroom

/-- The header of a signed image is read back if the blocks are not too long. -/
theorem decode_signedHeader (hc : image.contents signer = .ok c) (hr : image.InRange)
    (hhead : (c.header image.header).encode = .ok head)
    (hauthentication : (c.header image.header).authenticationSize < (1 <<< 63 : Nat))
    (hauxiliary : (c.header image.header).auxiliarySize < (1 <<< 63 : Nat)) :
    Header.decode head = .ok (c.header image.header) := by
  have hshape : (c.header image.header).Shaped :=
    ⟨hr.header.magic, hr.header.releaseString, hr.header.reserved⟩
  have hfirst := le_blockSize c.algorithm.authenticationSize
  have hsecond := le_blockSize (c.descriptors.length + c.key.length + c.metadata.length)
  have hextents : ∀ e ∈ (c.header image.header).extents, e.2 < (1 <<< 63 : Nat) := by
    unfold Algorithm.authenticationSize at hfirst
    simp only [Contents.header, signedHeader, Algorithm.authenticationSize] at hauthentication
    simp only [Contents.header, signedHeader] at hauxiliary
    simp only [Header.extents, Contents.header, signedHeader, Algorithm.authenticationSize,
      List.forall_mem_cons]
    -- Every offset and every size is bounded by the size of its block.
    refine ⟨?_, ?_, ?_, ?_, ?_, ?_, ?_, ?_, ?_, ?_, ?_, ?_, by simp⟩
    all_goals omega
  have hrange := Header.inRange_of_encode hhead hshape hextents (contents_eq_ok hc).1
  have hdecode := Header.decode_encode hhead hrange []
  rwa [List.append_nil] at hdecode

/-- A signed image is read back, whatever follows it. -/
theorem parse_signed (hc : image.contents signer = .ok c) (hr : image.InRange)
    (hhead : (c.header image.header).encode = .ok head)
    (hsignature : suite.sign signer c.digest (head ++ c.auxiliary) = .ok signature)
    (hroom : (head ++ c.authentication (suite.digest c.digest (head ++ c.auxiliary)) signature ++
      c.auxiliary).length < 1 <<< 63) (rest : Bytes) :
    parse suite
      (head ++ (c.authentication (suite.digest c.digest (head ++ c.auxiliary)) signature ++
        (c.auxiliary ++ rest))) = .ok (signedImage suite image c head signature) := by
  obtain ⟨halgorithm, hpublic, hkey, hlength, hdescriptors, hmetadata⟩ := contents_eq_ok hc
  obtain ⟨hdigest, hfits⟩ := length_digest_signature hc hsignature
  obtain ⟨hauthentication, hauxiliary⟩ := length_blocks hc hsignature
  rw [List.length_append, List.length_append] at hroom
  have hdecode := decode_signedHeader hc hr hhead (by omega) (by omega)
  have hblocks :=
    blocks_append (Header.length_of_encode hhead) hdecode hauthentication hauxiliary rest
  -- The offsets and sizes in the header cut the parts out of the blocks that were put there.
  obtain ⟨hkeySlice, hmetadataSlice, hdescriptorsSlice⟩ := slice_auxiliary hkey image.header
  obtain ⟨hhashSlice, hsignatureSlice⟩ := slice_authentication hc hsignature image.header
  have hbits : c.publicKey.bits < 1 <<< 31 := by
    rw [Contents.bits_eq hkey hlength]
    cases c.keySize <;> decide
  have hall := Descriptor.decodeAll_encodeAll hdescriptors hr.descriptors
    (show ([] : Bytes).length < 16 by decide)
  rw [List.append_nil] at hall
  rw [parse_eq]
  refine Outcome.bind_eq_ok.2 ⟨_, hblocks, Outcome.bind_eq_ok.2 ⟨c.algorithm, halgorithm, ?_⟩⟩
  refine Outcome.bind_eq_ok.2 ⟨some c.publicKey, Outcome.bind_eq_ok.2 ⟨_, hkeySlice, ?_⟩, ?_⟩
  · exact Outcome.bind_eq_ok.2 ⟨_, PublicKey.decode_encode hkey hbits, rfl⟩
  refine Outcome.bind_eq_ok.2 ⟨_, hmetadataSlice, Outcome.bind_eq_ok.2 ⟨_, hhashSlice, ?_⟩⟩
  refine Outcome.bind_eq_ok.2 ⟨_, hsignatureSlice, Outcome.bind_eq_ok.2 ⟨_, hdescriptorsSlice, ?_⟩⟩
  refine Outcome.bind_eq_ok.2 ⟨image.descriptors, hall, ?_⟩
  simp only [signedImage, checkSignature, Contents.algorithm, decide_true, Bool.true_and]
  rfl

/-- The image that signing leaves behind is read back from the blob, up to what was not written. -/
theorem parse_encodeSigned {written : Image} {alignment : Int} {blob : Bytes}
    (h : image.encodeSigned suite signer alignment = (.ok blob, written)) (hr : image.InRange)
    (halign : 1 ≤ alignment) :
    ∃ c head signature behind, image.contents signer = .ok c ∧ head.length = Header.size ∧
      suite.sign signer c.digest (head ++ c.auxiliary) = .ok signature ∧
      written = { image with header := c.header image.header, publicKey := some c.publicKey } ∧
      blob = head ++ (c.authentication (suite.digest c.digest (head ++ c.auxiliary)) signature ++
        (c.auxiliary ++ behind)) ∧
      ∀ rest, parse suite (blob ++ rest) = .ok (signedImage suite image c head signature) := by
  obtain ⟨c, head, signature, hc, hhead, hsignature, haligned, hwritten⟩ := encodeSigned_eq_ok h
  obtain ⟨hblob, hle, -, hlimit⟩ := align_eq_ok halign haligned
  rw [Bytes.padTo, List.append_assoc, List.append_assoc] at hblob
  refine ⟨c, head, signature, _, hc, Header.length_of_encode hhead, hsignature, hwritten, hblob,
    fun rest => ?_⟩
  rw [hblob, List.append_assoc, List.append_assoc, List.append_assoc]
  exact parse_signed hc hr hhead hsignature (Nat.lt_of_le_of_lt hle (Bytes.lt_of_le_room hlimit)) _

end Image

end VerifiedBoot
