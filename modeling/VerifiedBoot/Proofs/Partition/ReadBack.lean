import VerifiedBoot.Proofs.Image.Stability
import VerifiedBoot.Proofs.Partition.Placement

/-!
# What is written is what is read back

A partition that was written to is probed again. Behind a partition's own image the new blob is
found through the new footer, even if so little is in front of it that the mark of the blob stands
among the bytes that are looked at first. Without an own image it is found at the head. Either way
it is read back as the image that writing left in the request, and writing that request again
changes nothing.
-/

namespace VerifiedBoot

namespace Image

variable {suite : Suite} {image written : Image} {signer : Option Rsa.Key} {alignment : Int}
  {blob : Bytes}

/-- What is read back from a blob, whatever follows it, is the image that writing left behind. -/
theorem sameContents_of_encode (h : image.encode suite signer alignment = (.ok blob, written))
    (hr : image.InRange) (halign : 1 ≤ alignment) :
    ∃ parsed, (∀ rest, parse suite (blob ++ rest) = .ok parsed) ∧ parsed.SameContents written := by
  cases signer with
  | none =>
    change image.encodeUnsigned suite alignment = _ at h
    obtain ⟨descriptors, rfl, hparse⟩ := @parse_encodeUnsigned suite _ _ _ _ h hr halign
    exact ⟨_, hparse, rfl, rfl, rfl, rfl⟩
  | some signer =>
    change image.encodeSigned suite signer alignment = _ at h
    obtain ⟨c, head, signature, -, hc, -, -, rfl, -, hparse⟩ := parse_encodeSigned h hr halign
    obtain ⟨-, -, -, -, -, hmetadata⟩ := contents_eq_ok hc
    obtain ⟨metadata, hsome⟩ := Option.isSome_iff_exists.1 hr.metadata
    refine ⟨_, hparse, rfl, rfl, rfl, ?_⟩
    simp only [signedImage, hmetadata, hsome, Option.getD_some]

/-- What writing leaves behind is written to the same blob, and is left as it is. -/
theorem encode_written (h : image.encode suite signer alignment = (.ok blob, written)) :
    written.encode suite signer alignment = (.ok blob, written) := by
  cases signer with
  | none =>
    change image.encodeUnsigned suite alignment = _ at h
    have hagain := encodeUnsigned_of_sameUnsigned (sameUnsigned_of_encodeUnsigned h) h
    obtain ⟨descriptors, -, -, -, -, rfl⟩ := encodeUnsigned_eq_ok h
    exact hagain
  | some signer =>
    change image.encodeSigned suite signer alignment = _ at h
    exact encodeSigned_of_sameSigned (sameSigned_of_encodeSigned h) h

end Image

namespace Bytes

/-- Nothing changes where what is written is there already. -/
theorem overwrite_of_slice {file data : Bytes} {start : Nat} (hstart : start ≤ file.length)
    (h : slice file start data.length = data) : overwrite file start data = file := by
  have hbehind : data ++ file.drop (start + data.length) = file.drop start := by
    rw [← List.drop_drop]
    nth_rewrite 1 [← h]
    exact List.take_append_drop _ _
  rw [overwrite_eq hstart, hbehind, List.take_append_drop]

/-- Nothing changes where two parts are placed that are there already. -/
theorem Placed.overwrite_eq_self {data part last file : Bytes} {start : Nat}
    (h : Placed data start part last file) :
    overwrite (overwrite file start part) (file.length - last.length) last = file := by
  have hroom := h.room
  have hlength := h.length
  have hlast := h.atEnd
  rw [overwrite_of_slice (by omega) h.inside]
  apply overwrite_of_slice (by omega)
  rw [slice, hlength, hlast, List.take_length]

end Bytes

namespace Request

variable {suite : Suite} {request left : Request} {alignment : Int} {blob data : Bytes}
  {w : Written}

/-- A request that was encoded has the same blob again, whatever footer it has got. -/
theorem encode_left (h : request.encode suite alignment = (.ok blob, left))
    (footer : Option Footer) :
    { left with footer }.encode suite alignment = (.ok blob, { left with footer }) := by
  cases hwritten : request.image.encode suite (request.signer.map (·.rsa)) alignment with
  | mk outcome image =>
    simp only [encode, hwritten] at h
    obtain ⟨rfl, rfl⟩ := Prod.mk.inj h
    simp only [encode, Image.encode_written hwritten]

/-- The image that is left behind is read back from the blob, whatever follows. -/
theorem sameContents_of_encode (h : request.encode suite alignment = (.ok blob, left))
    (hr : request.image.InRange) (halign : 1 ≤ alignment) :
    ∃ parsed, (∀ rest, Image.parse suite (blob ++ rest) = .ok parsed) ∧
      parsed.SameContents left.image := by
  cases hwritten : request.image.encode suite (request.signer.map (·.rsa)) alignment with
  | mk outcome image =>
    simp only [encode, hwritten] at h
    obtain ⟨rfl, rfl⟩ := Prod.mk.inj h
    exact Image.sameContents_of_encode hwritten hr halign

/-- What writing leaves behind of a request is the request but for its image, and of the image all
that is written of it. -/
theorem kept_of_encode (h : request.encode suite alignment = (.ok blob, left)) :
    left.partition = request.partition ∧ left.signer = request.signer ∧
      (request.signer = none → request.image.SameUnsigned left.image) ∧
      (request.signer.isSome → request.image.SameSigned left.image) := by
  cases hwritten : request.image.encode suite (request.signer.map (·.rsa)) alignment with
  | mk outcome image =>
    simp only [encode, hwritten] at h
    obtain ⟨rfl, rfl⟩ := Prod.mk.inj h
    refine ⟨rfl, rfl, fun hnone => ?_, fun hsome => ?_⟩
    · rw [hnone] at hwritten
      exact Image.sameUnsigned_of_encodeUnsigned hwritten
    · obtain ⟨pair, hpair⟩ := Option.isSome_iff_exists.1 hsome
      rw [hpair] at hwritten
      exact Image.sameSigned_of_encodeSigned hwritten

/-- A request that was applied is applied once more, which changes neither the partition nor the
request. -/
theorem applyInPlace_again (h : request.applyInPlace suite data alignment = (.ok (), w)) :
    w.request.applyInPlace suite w.file alignment = (.ok (), w) := by
  unfold applyInPlace at h
  split at h
  · next hfooter =>
    obtain ⟨blob, left, hencode, rfl⟩ := writeBare_eq_ok.1 h
    have hleft : left.footer = none := (footer_of_encode hencode).trans hfooter
    have hagain := encode_left hencode left.footer
    have hfile : Bytes.overwrite (Bytes.overwrite data 0 blob) 0 blob =
        Bytes.overwrite data 0 blob := by
      apply Bytes.overwrite_of_slice (Nat.zero_le _)
      rw [Bytes.overwrite_zero]
      exact List.take_left
    simp only [applyInPlace, hleft]
    exact writeBare_eq_ok.2 ⟨blob, left, hagain, congrArg (Written.mk left) hfile.symm⟩
  · next footer hfooter =>
    obtain ⟨blob, left, encoded, start, hencode, hstart, hlimit, hroom, hencoded, rfl⟩ :=
      writeFooted_eq_ok.1 h
    have hsize := Footer.length_of_encode hencoded
    have hplaced := @Bytes.placed_overwrite data blob encoded start (by omega)
    have hagain := encode_left hencode (some (placeBlob footer blob))
    simp only [applyInPlace]
    refine writeFooted_eq_ok.2 ⟨blob, _, encoded, start, hagain, hstart, hlimit, ?_, hencoded, ?_⟩
    · rw [hplaced.length]
      exact hroom
    · exact congrArg (Written.mk _) hplaced.overwrite_eq_self.symm

/-- **What is written is what is read back.** After a successful writing the image is found behind
the partition's own image, through the footer that the request holds now, or at the head if there is
no footer or nothing in front of the blob. What is read there has the contents of the image that the
request holds now, which is the one that it held before on all that is written of an image. To apply
the request again changes nothing. -/
theorem readBack_of_applyInPlace {suite : Suite} {request : Request} {data : Bytes}
    {alignment : Int} {w : Written} (hr : request.image.InRange) (hdata : data.length < 1 <<< 63)
    (halign : 1 ≤ alignment)
    (hfooter : ∀ footer, request.footer = some footer →
      (∃ block, Footer.decode block = .ok footer) ∧ data.take 4 ≠ Header.signature)
    (h : request.applyInPlace suite data alignment = (.ok (), w)) :
    ∃ blob info parsed, (request.encode suite alignment).1 = .ok blob ∧
      w.request.footer = request.footer.map (fun footer => { footer with
        vbmetaOffset := footer.originalImageSize
        vbmetaSize := blob.length }) ∧
      PartitionInfo.probe w.file = some info ∧
      (∀ footer, request.footer = some footer → 0 < footer.originalImageSize →
        info.footer = w.request.footer ∧ info.vbmetaOffset = footer.originalImageSize) ∧
      ((∀ footer, request.footer = some footer → ¬0 < footer.originalImageSize) →
        info.footer = none ∧ info.vbmetaOffset = 0) ∧
      Image.parseAt suite w.file info.vbmetaOffset.toNat = .ok parsed ∧
      parsed.SameContents w.request.image ∧
      w.request.partition = request.partition ∧ w.request.signer = request.signer ∧
      (request.signer = none → request.image.SameUnsigned w.request.image) ∧
      (request.signer.isSome → request.image.SameSigned w.request.image) ∧
      w.request.applyInPlace suite w.file alignment = (.ok (), w) := by
  have hagain := applyInPlace_again h
  cases hcase : request.footer with
  | none =>
    unfold applyInPlace at h
    rw [hcase] at h
    obtain ⟨blob, left, hencode, rfl⟩ := writeBare_eq_ok.1 h
    obtain ⟨parsed, hparse, hsame⟩ := sameContents_of_encode hencode hr halign
    have hparsed := hparse (data.drop blob.length)
    rw [← Bytes.overwrite_zero] at hparsed
    have hprobe := PartitionInfo.probe_of_signature (Image.take_of_parse hparsed)
    -- Without a footer the blob is at the head, where its mark is found first.
    obtain ⟨hpartition, hsigner, hunsigned, hsigned⟩ := kept_of_encode hencode
    exact ⟨blob, _, parsed, congrArg Prod.fst hencode, (footer_of_encode hencode).trans hcase,
      hprobe, nofun, fun _ => ⟨rfl, rfl⟩, hparsed, hsame, hpartition, hsigner, hunsigned, hsigned,
      hagain⟩
  | some footer =>
    obtain ⟨⟨block, hblock⟩, hnoImage⟩ := hfooter footer hcase
    obtain ⟨blob, left, encoded, hencode, horiginal, hencoded, hrequest, hplaced⟩ :=
      applyInPlace_of_footed hcase h
    obtain ⟨parsed, hparse, hsame⟩ := sameContents_of_encode hencode hr halign
    obtain ⟨info, hinfo, hoffset, hinfoFooter⟩ := probe_of_placed
      (Footer.inRange_of_decode hblock) hnoImage hdata
      (fun rest => Image.take_of_parse (hparse rest)) hencoded hplaced
    have hparsed : Image.parseAt suite w.file info.vbmetaOffset.toNat = .ok parsed := by
      rw [Image.parseAt_eq, hoffset, hplaced.drop_start]
      exact hparse _
    refine ⟨blob, info, parsed, congrArg Prod.fst hencode, ?_, hinfo, ?_, ?_, hparsed, ?_⟩
    · rw [hrequest]
      rfl
    · intro found hfound hpos
      obtain rfl := Option.some.inj hfound
      rw [hinfoFooter, if_pos hpos, hrequest]
      exact ⟨rfl, hoffset⟩
    -- With nothing in front of it the blob begins the partition, and its mark hides the footer.
    · intro hnone
      have hzero := hnone footer rfl
      rw [hinfoFooter, if_neg hzero, hoffset]
      exact ⟨rfl, by omega⟩
    · obtain ⟨hpartition, hsigner, hunsigned, hsigned⟩ := kept_of_encode hencode
      rw [hrequest] at hagain ⊢
      exact ⟨hsame, hpartition, hsigner, hunsigned, hsigned, hagain⟩

/-- A request for a partition whose own image has two bytes, so that the mark of the blob stands
partly among the bytes that are looked at first. -/
def tightRequest : Request :=
  { smallRequest with footer := some { Footer.empty with originalImageSize := 2 } }

/-- The request with two bytes in front of the blob is read back through its footer, and to apply it
again changes nothing. -/
theorem readBack_of_applyInPlace_tightRequest :
    (tightRequest.image.InRange ∧ (Bytes.zeros 2000).length < 1 <<< 63 ∧ (1 : Int) ≤ 64 ∧
      ∀ footer, tightRequest.footer = some footer →
        (∃ block, Footer.decode block = .ok footer) ∧
          (Bytes.zeros 2000).take 4 ≠ Header.signature) ∧
    ∃ w info parsed,
      tightRequest.applyInPlace .standard (Bytes.zeros 2000) 64 = (.ok (), w) ∧
      PartitionInfo.probe w.file = some info ∧ info.footer = w.request.footer ∧
      info.vbmetaOffset = 2 ∧ Image.parseAt .standard w.file 2 = .ok parsed ∧
      parsed.SameContents w.request.image ∧
      tightRequest.image.SameUnsigned w.request.image ∧
      w.request.applyInPlace .standard w.file 64 = (.ok (), w) := by
  have hr : tightRequest.image.InRange := Image.inRange_mixedImage
  have hdata : (Bytes.zeros 2000).length < 1 <<< 63 := by decide +kernel
  have halign : (1 : Int) ≤ 64 := by decide
  have hfooter : ∀ footer, tightRequest.footer = some footer →
      (∃ block, Footer.decode block = .ok footer) ∧
        (Bytes.zeros 2000).take 4 ≠ Header.signature := by
    intro footer hsome
    obtain rfl := Option.some.inj hsome
    refine ⟨⟨Footer.signature ++ [0, 0, 0, 1] ++ Bytes.zeros 11 ++ [2] ++ Bytes.zeros 44, ?_⟩, ?_⟩
    · rfl
    · decide +kernel
  have hok : (tightRequest.applyInPlace .standard (Bytes.zeros 2000) 64).1.toBool = true := by
    decide +kernel
  obtain ⟨⟨⟩, w, hwritten⟩ := Outcome.exists_of_toBool hok
  obtain ⟨blob, info, parsed, -, -, hprobe, hpositive, -, hparse, hsame, -, -, hkept, -, hagain⟩ :=
    readBack_of_applyInPlace hr hdata halign hfooter hwritten
  obtain ⟨hfound, hoffset⟩ := hpositive _ rfl (by decide)
  rw [hoffset] at hparse
  exact ⟨⟨hr, hdata, halign, hfooter⟩, w, info, parsed, hwritten, hprobe, hfound, hoffset, hparse,
    hsame, hkept rfl, hagain⟩

end Request

end VerifiedBoot
