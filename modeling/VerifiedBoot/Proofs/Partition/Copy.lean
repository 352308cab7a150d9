import VerifiedBoot.Proofs.Partition.Placement

/-!
# Copies agree with partitions that are written in place

A request is applied to a copy exactly when it is applied to the partition itself. Its own image is
copied piece by piece, and if the source is too short for it, then there is no room for the blob in
the partition either. The copy holds the same image, blob and footer at the same positions and
nothing else, so the same image is found in both.
-/

namespace VerifiedBoot

namespace Bytes

theorem overwrite_length_eq_append (file data : Bytes) :
    overwrite file file.length data = file ++ data := by
  rw [overwrite_eq (Nat.le_refl _), List.take_length, List.drop_eq_nil_of_le (by omega),
    List.append_nil]

/-- What is written behind the end of a file follows the zeros that fill the gap. -/
theorem overwrite_of_length_le {file data : Bytes} {start : Nat} (hstart : file.length ≤ start)
    (hdata : data ≠ []) :
    overwrite file start data = file ++ (zeros (start - file.length) ++ data) := by
  have hempty : ¬data.isEmpty = true := by
    rw [List.isEmpty_iff]
    exact hdata
  rw [overwrite, if_neg hempty, padTo, List.take_of_length_le hstart,
    List.drop_eq_nil_of_le (by omega), List.append_nil, List.append_assoc]

/-- Two parts that are written to the front of some data instead of all of it end up in the same
places, with zeros between them. -/
theorem overwrite_overwrite_take {data part last : Bytes} {start : Nat}
    (hroom : start + part.length + last.length ≤ data.length) (hlast : last ≠ []) :
    overwrite (overwrite (data.take start) start part) (data.length - last.length) last =
      data.take start ++ (part ++
        (zeros (data.length - last.length - (start + part.length)) ++ last)) := by
  have hfront : (data.take start).length = start := by
    rw [List.length_take]
    omega
  have happend := overwrite_length_eq_append (data.take start) part
  rw [hfront] at happend
  rw [happend, overwrite_of_length_le _ hlast, List.length_append, hfront, List.append_assoc]
  rw [List.length_append, hfront]
  omega

end Bytes

namespace Footer

/-- The position of the blob is read back, whatever the mark of the footer is. -/
theorem vbmetaOffset_of_decode {footer found : Footer} {data : Bytes}
    (hencoded : footer.encode = .ok data) (hfound : decode data = .ok found) :
    found.vbmetaOffset = footer.vbmetaOffset := by
  obtain ⟨-, hunpack, -⟩ := decode_eq_ok.1 hfound
  have hfitted := Layout.unpack_pack_fitted hencoded []
  rw [List.append_nil, hunpack] at hfitted
  exact congrArg (fun row : layout.Row => row.2.2.2.2.1) (Except.ok.inj hfitted)

end Footer

namespace PartitionInfo

/-- The last bytes of a partition are those that it was put together with. -/
theorem drop_length_sub {front last : Bytes} {size : Nat} (hlast : last.length = size) :
    (front ++ last).drop ((front ++ last).length - size) = last := by
  rw [List.length_append, hlast, Nat.add_sub_cancel, List.drop_left]

/-- Only the head, the length and the end of a partition say where its image is. -/
theorem probe_append_congr {front x y last : Bytes} (hfront : 4 ≤ front.length)
    (hlength : x.length = y.length) (hlast : last.length = Footer.size) :
    probe (front ++ x ++ last) = probe (front ++ y ++ last) := by
  have htake (z : Bytes) : (front ++ z ++ last).take 4 = front.take 4 := by
    rw [List.append_assoc, List.take_append_of_le_length hfront]
  have hlength' : (front ++ x ++ last).length = (front ++ y ++ last).length := by
    simp only [List.length_append, hlength]
  have hend := @drop_length_sub (front ++ x) last _ hlast
  rw [hlength'] at hend
  simp only [probe, htake, hlength', drop_length_sub hlast, hend]

/-- A footer that is found is the one at the end, and has the same position of the blob. -/
theorem vbmetaOffset_of_probe {front last : Bytes} {footer found : Footer} {info : PartitionInfo}
    (hlast : footer.encode = .ok last) (hprobe : probe (front ++ last) = some info)
    (hfound : info.footer = some found) : found.vbmetaOffset = footer.vbmetaOffset := by
  have hfooted : Footed (front ++ last) found := by
    apply probe_eq_footer.1
    rw [hprobe]
    exact hfound
  have hdecode := hfooted.decode
  rw [drop_length_sub (Footer.length_of_encode hlast)] at hdecode
  exact Footer.vbmetaOffset_of_decode hlast hdecode

end PartitionInfo

namespace Request

variable {suite : Suite} {request left : Request} {alignment : Int} {blob data : Bytes}
  {v w : Written}

/-- The bytes are copied if the source has as many, and are appended to the file. -/
theorem copyPayload_eq_ok {remaining : Nat} {source : Bytes} {position : Nat} {file copied : Bytes}
    (hposition : position = file.length) :
    copyPayload remaining source position file = (.ok (), copied) ↔
      remaining ≤ source.length ∧ copied = file ++ source.take remaining := by
  fun_induction copyPayload remaining source position file with
  | case1 source position file =>
    rw [List.take_zero, List.append_nil, Prod.mk.injEq]
    constructor
    · rintro ⟨-, rfl⟩
      exact ⟨Nat.zero_le _, rfl⟩
    · rintro ⟨-, rfl⟩
      exact ⟨rfl, rfl⟩
  | case2 remaining source position file hremaining size chunk hshort =>
    constructor
    · intro h
      cases h
    · rintro ⟨hsource, -⟩
      have hchunk : chunk.length = min size source.length := List.length_take
      have hsize : size ≤ remaining := Nat.min_le_right _ _
      omega
  | case3 remaining source position file hremaining size chunk hlong ih =>
    have hchunk : chunk.length = min size source.length := List.length_take
    have hsize : size ≤ remaining := Nat.min_le_right _ _
    have hfile : Bytes.overwrite file position chunk = file ++ chunk := by
      rw [hposition, Bytes.overwrite_length_eq_append]
    have hnext : position + size = (file ++ chunk).length := by
      rw [List.length_append]
      omega
    -- What the rest of the loop appends goes on where this round stopped.
    have htake : chunk ++ (source.drop size).take (remaining - size) = source.take remaining := by
      rw [← List.take_add, Nat.add_sub_cancel' hsize]
    have hlength : remaining - size ≤ (source.drop size).length ↔ remaining ≤ source.length := by
      rw [List.length_drop]
      omega
    rw [hfile] at ih ⊢
    rw [ih hnext, hlength, List.append_assoc, htake]

/-- A request with a footer is applied to a copy by writing to the own image of the partition, if
there is as much of it. -/
theorem applyToCopy_of_footed {footer : Footer} (hfooter : request.footer = some footer) :
    request.applyToCopy suite data [] alignment = (.ok (), v) ↔
      footer.originalImageSize.toNat ≤ data.length ∧
      request.writeFooted suite footer (data.take footer.originalImageSize.toNat) data.length
        alignment = (.ok (), v) := by
  have hempty : 0 = ([] : Bytes).length := rfl
  simp only [applyToCopy, hfooter]
  split
  · next e copied hcopy =>
    constructor
    · intro h
      cases h
    · rintro ⟨hlength, -⟩
      rw [(copyPayload_eq_ok hempty).2 ⟨hlength, rfl⟩] at hcopy
      cases hcopy
  · next copied hcopy =>
    obtain ⟨hlength, rfl⟩ := (copyPayload_eq_ok hempty).1 hcopy
    rw [List.nil_append, and_iff_right hlength]

/-- If a request is written to one file, it is written to every other one. -/
theorem exists_writeFooted {footer : Footer} {file : Bytes} {size : Nat}
    (h : request.writeFooted suite footer file size alignment = (.ok (), w)) (other : Bytes) :
    ∃ v, request.writeFooted suite footer other size alignment = (.ok (), v) := by
  obtain ⟨blob, left, encoded, start, hencode, hstart, hlimit, hroom, hencoded, -⟩ :=
    writeFooted_eq_ok.1 h
  exact ⟨_, writeFooted_eq_ok.2
    ⟨blob, left, encoded, start, hencode, hstart, hlimit, hroom, hencoded, rfl⟩⟩

/-- A copy is made exactly when the partition itself is written. -/
theorem exists_applyToCopy_iff :
    (∃ v, request.applyToCopy suite data [] alignment = (.ok (), v)) ↔
      ∃ w, request.applyInPlace suite data alignment = (.ok (), w) := by
  cases hcase : request.footer with
  | none =>
    simp only [applyToCopy, applyInPlace, hcase, writeBare_eq_ok]
    constructor
    · rintro ⟨v, blob, left, hencode, -⟩
      exact ⟨_, blob, left, hencode, rfl⟩
    · rintro ⟨w, blob, left, hencode, -⟩
      exact ⟨_, blob, left, hencode, rfl⟩
  | some footer =>
    simp only [applyToCopy_of_footed hcase, applyInPlace, hcase]
    constructor
    · rintro ⟨v, -, h⟩
      exact exists_writeFooted h data
    · rintro ⟨w, h⟩
      obtain ⟨v, hv⟩ := exists_writeFooted h (data.take footer.originalImageSize.toNat)
      -- The blob ends in the partition, so the own image does.
      obtain ⟨blob, left, encoded, start, -, hstart, -, hroom, -⟩ := writeFooted_eq_ok.1 h
      exact ⟨v, by omega, hv⟩

/-- A blob that is read as an image, whatever follows, holds the mark of one. -/
theorem four_le_length {image : Image}
    (hparse : ∀ rest, Image.parse suite (blob ++ rest) = .ok image) : 4 ≤ blob.length := by
  have hmark := congrArg List.length (Image.take_of_parse (hparse []))
  rw [List.append_nil, List.length_take, show Header.signature.length = 4 from rfl] at hmark
  omega

/-- If there is no mark of an image in front of a blob, the image of the blob is the one that is
found, provided that the footer at the end points to it. -/
theorem parseAt_of_probe {front between last : Bytes} {image : Image} {info : PartitionInfo}
    {placed : Footer} (hfront : front.take 4 ≠ Header.signature)
    (hparse : ∀ rest, Image.parse suite (blob ++ rest) = .ok image)
    (hlast : placed.encode = .ok last) (hplaced : placed.vbmetaOffset = front.length)
    (hprobe : PartitionInfo.probe (front ++ (blob ++ (between ++ last))) = some info) :
    Image.parseAt suite (front ++ (blob ++ (between ++ last))) info.vbmetaOffset.toNat =
      .ok image := by
  have hoffset : info.vbmetaOffset.toNat = front.length := by
    rcases PartitionInfo.probe_cases hprobe with ⟨hmagic, hnone⟩ | ⟨found, hfound, -⟩
    -- If there is a mark at the head, nothing is in front of the blob.
    · rw [eq_zero_of_take_signature (Image.take_of_parse (hparse _)) hfront hmagic,
        PartitionInfo.vbmetaOffset, hnone]
      rfl
    · rw [← List.append_assoc, ← List.append_assoc] at hprobe
      rw [PartitionInfo.vbmetaOffset, hfound]
      simp only [PartitionInfo.vbmetaOffset_of_probe hlast hprobe hfound, hplaced,
        Int.toNat_natCast]
  rw [Image.parseAt_eq, hoffset, List.drop_left]
  exact hparse _

/-- Without a footer the copy is the blob, and the partition goes on behind the blob as before. -/
theorem files_of_bare (hfooter : request.footer = none)
    (hv : request.applyToCopy suite data [] alignment = (.ok (), v))
    (hw : request.applyInPlace suite data alignment = (.ok (), w)) :
    ∃ blob left, request.encode suite alignment = (.ok blob, left) ∧ v = ⟨left, blob⟩ ∧
      w = ⟨left, blob ++ data.drop blob.length⟩ := by
  simp only [applyToCopy, applyInPlace, hfooter] at hv hw
  obtain ⟨blob, left, hencode, rfl⟩ := writeBare_eq_ok.1 hv
  obtain ⟨blob', left', hencode', rfl⟩ := writeBare_eq_ok.1 hw
  obtain ⟨⟨⟩, rfl⟩ := Prod.mk.inj (hencode.symm.trans hencode')
  refine ⟨blob, left, hencode, ?_, ?_⟩
  · rw [Bytes.overwrite_zero, List.drop_nil, List.append_nil]
  · rw [Bytes.overwrite_zero]

/-- With a footer both files begin with the own image and the blob and end in the new footer. What
is between is zero in the copy. -/
theorem files_of_footed {footer : Footer} (hfooter : request.footer = some footer)
    (hv : request.applyToCopy suite data [] alignment = (.ok (), v))
    (hw : request.applyInPlace suite data alignment = (.ok (), w)) :
    ∃ blob left, ∃ start : Nat, ∃ between last,
      request.encode suite alignment = (.ok blob, left) ∧
      v.request = w.request ∧ footer.originalImageSize = start ∧
      (placeBlob footer blob).encode = .ok last ∧
      start + blob.length + between.length + last.length = data.length ∧
      w.file = data.take start ++ (blob ++ (between ++ last)) ∧
      v.file = data.take start ++ (blob ++ (Bytes.zeros between.length ++ last)) := by
  obtain ⟨-, hv⟩ := (applyToCopy_of_footed hfooter).1 hv
  simp only [applyInPlace, hfooter] at hw
  obtain ⟨blob, left, last, start, hencode, hstart, -, hroom, hlast, rfl⟩ :=
    writeFooted_eq_ok.1 hw
  obtain ⟨blob', left', last', start', hencode', hstart', -, -, hlast', rfl⟩ :=
    writeFooted_eq_ok.1 hv
  obtain ⟨⟨⟩, rfl⟩ := Prod.mk.inj (hencode.symm.trans hencode')
  obtain rfl := Outcome.ok_unique hlast hlast'
  obtain rfl := Int.ofNat_inj.1 (hstart.symm.trans hstart')
  have hsize := Footer.length_of_encode hlast
  have hnonempty : last ≠ [] := by
    intro hempty
    rw [hempty] at hsize
    cases hsize
  have hbetween : (Bytes.slice data (start + blob.length)
      (data.length - last.length - (start + blob.length))).length =
        data.length - last.length - (start + blob.length) := by
    rw [Bytes.length_slice]
    omega
  -- In place, the bytes between the two are those of the partition. The copy ends where the own
  -- image does, so writing the footer fills it up with zeros.
  refine ⟨blob, left, start, _, last, hencode, rfl, hstart, hlast, ?_,
    Bytes.overwrite_overwrite (by omega), ?_⟩
  · rw [hbetween]
    omega
  · rw [hbetween, hstart, Int.toNat_natCast]
    exact Bytes.overwrite_overwrite_take (by omega) hnonempty

/-- In a partition that was written the new image is found, if the footer was in range and there was
no image at the head. -/
theorem exists_probe_of_applyInPlace (hr : request.image.InRange) (halign : 1 ≤ alignment)
    (hdata : data.length < 1 <<< 63)
    (hfooter : ∀ footer, request.footer = some footer →
      footer.InRange ∧ data.take 4 ≠ Header.signature)
    (h : request.applyInPlace suite data alignment = (.ok (), w)) :
    ∃ info, PartitionInfo.probe w.file = some info := by
  cases hcase : request.footer with
  | none =>
    obtain ⟨-, -, hmagic, -⟩ := readImage_of_bare hcase h hr halign
    exact ⟨_, PartitionInfo.probe_of_signature hmagic⟩
  | some footer =>
    obtain ⟨hrange, hnoImage⟩ := hfooter footer hcase
    obtain ⟨blob, left, encoded, hencode, -, hencoded, -, hplaced⟩ := applyInPlace_of_footed hcase h
    obtain ⟨image, hparse, -⟩ := parse_of_encode hencode hr halign
    obtain ⟨info, hinfo, -⟩ := probe_of_placed hrange hnoImage hdata
      (fun rest => Image.take_of_parse (hparse rest)) hencoded hplaced
    exact ⟨info, hinfo⟩

/-- **Copies agree with partitions that are written in place.** One succeeds exactly if the other
does, and leaves the same request. Without a footer the copy is the blob, and the partition goes on
behind the blob as before. With a footer both files hold the own image, the blob and the new footer
in the same places, and the copy is zero between the two. Both are probed alike, and the same image
is read from them, unless the request has a footer and the partition begins like an image. There is
something to be found in both, if the footer is in range as well. -/
theorem applyToCopy_agrees {suite : Suite} {request : Request} {data : Bytes} {alignment : Int}
    (hr : request.image.InRange) (halign : 1 ≤ alignment) :
    ((∃ v, request.applyToCopy suite data [] alignment = (.ok (), v)) ↔
      ∃ w, request.applyInPlace suite data alignment = (.ok (), w)) ∧
    ∀ v w, request.applyToCopy suite data [] alignment = (.ok (), v) →
      request.applyInPlace suite data alignment = (.ok (), w) →
      v.request = w.request ∧
      (∃ blob, (request.encode suite alignment).1 = .ok blob ∧
        (request.footer = none →
          v.file = blob ∧ w.file = blob ++ data.drop blob.length) ∧
        ∀ footer, request.footer = some footer → ∃ (start : Nat) (between last : Bytes),
          footer.originalImageSize = start ∧ last.length = Footer.size ∧
          start + blob.length + between.length + last.length = data.length ∧
          w.file = data.take start ++ (blob ++ (between ++ last)) ∧
          v.file = data.take start ++ (blob ++ (Bytes.zeros between.length ++ last))) ∧
      PartitionInfo.probe v.file = PartitionInfo.probe w.file ∧
      (request.footer = none ∨ data.take 4 ≠ Header.signature →
        ∀ info, PartitionInfo.probe w.file = some info →
          ∃ image, Image.parseAt suite v.file info.vbmetaOffset.toNat = .ok image ∧
            Image.parseAt suite w.file info.vbmetaOffset.toNat = .ok image) ∧
      (data.length < 1 <<< 63 →
        (∀ footer, request.footer = some footer →
          footer.InRange ∧ data.take 4 ≠ Header.signature) →
        ∃ info, PartitionInfo.probe w.file = some info) := by
  refine ⟨exists_applyToCopy_iff, fun v w hv hw => ?_⟩
  have hfound (hdata : data.length < 1 <<< 63) (hfooter : ∀ footer, request.footer = some footer →
      footer.InRange ∧ data.take 4 ≠ Header.signature) :=
    exists_probe_of_applyInPlace hr halign hdata hfooter hw
  cases hcase : request.footer with
  | none =>
    obtain ⟨blob, left, hencode, rfl, rfl⟩ := files_of_bare hcase hv hw
    obtain ⟨image, hparse, -⟩ := parse_of_encode hencode hr halign
    have hcopy := hparse []
    rw [List.append_nil] at hcopy
    have hplace := hparse (data.drop blob.length)
    have hprobe := PartitionInfo.probe_of_signature (Image.take_of_parse hplace)
    rw [hcase] at hfound
    refine ⟨rfl, ⟨blob, congrArg Prod.fst hencode, fun _ => ⟨rfl, rfl⟩, nofun⟩, ?_, ?_, hfound⟩
    · rw [hprobe]
      exact PartitionInfo.probe_of_signature (Image.take_of_parse hcopy)
    · intro _ info hinfo
      obtain rfl := Option.some.inj (hprobe.symm.trans hinfo)
      exact ⟨image, hcopy, hplace⟩
  | some footer =>
    obtain ⟨blob, left, start, between, last, hencode, hrequest, hstart, hlast, hlength, hplace,
      hcopy⟩ := files_of_footed hcase hv hw
    obtain ⟨image, hparse, -⟩ := parse_of_encode hencode hr halign
    have hsize := Footer.length_of_encode hlast
    have hblob : 4 ≤ blob.length := four_le_length hparse
    have hprobe : PartitionInfo.probe v.file = PartitionInfo.probe w.file := by
      rw [hcopy, hplace]
      simp only [← List.append_assoc]
      refine PartitionInfo.probe_append_congr ?_ (Bytes.length_zeros _) hsize
      rw [List.length_append]
      omega
    rw [hcase] at hfound
    refine ⟨hrequest, ⟨blob, congrArg Prod.fst hencode, nofun, ?_⟩, hprobe, ?_, hfound⟩
    · intro own hown
      obtain rfl := Option.some.inj hown
      exact ⟨start, between, last, hstart, hsize, hlength, hplace, hcopy⟩
    · intro hnoImage info hinfo
      have hfront := take_ne_signature (hnoImage.resolve_left nofun) start
      have hoffset : (placeBlob footer blob).vbmetaOffset = (data.take start).length := by
        rw [List.length_take]
        change footer.originalImageSize = _
        omega
      refine ⟨image, ?_, ?_⟩
      · rw [hcopy] at hprobe ⊢
        exact parseAt_of_probe hfront hparse hlast hoffset (hprobe.trans hinfo)
      · rw [hplace] at hinfo ⊢
        exact parseAt_of_probe hfront hparse hlast hoffset hinfo

/-- A partition of 2000 bytes, 100 of which are its own image, is written in place and copied, and
the same image is found in both. -/
theorem applyToCopy_agrees_smallRequest :
    (smallRequest.image.InRange ∧ (1 : Int) ≤ 64 ∧
      (List.replicate 2000 7 : Bytes).length < 1 <<< 63 ∧
      ∀ footer, smallRequest.footer = some footer →
        footer.InRange ∧ (List.replicate 2000 7 : Bytes).take 4 ≠ Header.signature) ∧
    ∃ v w info image,
      smallRequest.applyToCopy .standard (List.replicate 2000 7) [] 64 = (.ok (), v) ∧
      smallRequest.applyInPlace .standard (List.replicate 2000 7) 64 = (.ok (), w) ∧
      PartitionInfo.probe v.file = some info ∧ PartitionInfo.probe w.file = some info ∧
      Image.parseAt .standard v.file info.vbmetaOffset.toNat = .ok image ∧
      Image.parseAt .standard w.file info.vbmetaOffset.toNat = .ok image := by
  have hr : smallRequest.image.InRange := Image.inRange_mixedImage
  have halign : (1 : Int) ≤ 64 := by decide
  obtain ⟨hiff, hagree⟩ :=
    @applyToCopy_agrees .standard smallRequest (List.replicate 2000 7) 64 hr halign
  have hok : (smallRequest.applyInPlace .standard (List.replicate 2000 7) 64).1.toBool = true := by
    decide +kernel
  have hdata : (List.replicate 2000 7 : Bytes).length < 1 <<< 63 := by decide +kernel
  have hnoImage : (List.replicate 2000 7 : Bytes).take 4 ≠ Header.signature := by decide +kernel
  have hfooter : ∀ footer, smallRequest.footer = some footer →
      footer.InRange ∧ (List.replicate 2000 7 : Bytes).take 4 ≠ Header.signature := by
    intro footer hsome
    obtain rfl := Option.some.inj hsome
    exact ⟨inRange_smallFooter, hnoImage⟩
  obtain ⟨⟨⟩, w, hw⟩ := Outcome.exists_of_toBool hok
  obtain ⟨v, hv⟩ := hiff.2 ⟨w, hw⟩
  obtain ⟨-, -, hprobe, himage, hfound⟩ := hagree v w hv hw
  obtain ⟨info, hinfo⟩ := hfound hdata hfooter
  obtain ⟨image, hcopy, hplace⟩ := himage (.inr hnoImage) info hinfo
  exact ⟨⟨hr, halign, hdata, hfooter⟩, v, w, info, image, hv, hw, hprobe.trans hinfo, hinfo, hcopy,
    hplace⟩

end Request

end VerifiedBoot
