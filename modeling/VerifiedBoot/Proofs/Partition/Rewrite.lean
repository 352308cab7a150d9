import VerifiedBoot.Proofs.Image.Validity
import VerifiedBoot.Proofs.Partition.Probe
import VerifiedBoot.Repair.Request

/-!
# Partitions after they were written

A request that is applied leaves a partition from which its image is read back. Behind a partition's
own image nothing of that image changes, and the footer still says how long it is. Only a footer
that says that there is no image of its own may be lost: the partition is then an image itself.
-/

namespace VerifiedBoot

/-- What it takes for a pair to sign images that verify: its halves belong together, what it signs
verifies, and the modulus has as many bytes as the size of the key. -/
structure KeyPair.Reliable (suite : Suite) (pair : KeyPair) : Prop where
  publicKey : PublicKey.ofKey pair.rsa = .ok pair.publicKey
  accepts : suite.Accepts pair.rsa
  fills : 8 * Rsa.Key.signatureSize pair.rsa.modulus = pair.bits

namespace Bytes

/-- The positions are the numbers that are not negative and below the limit. -/
theorem position_eq_ok {n : Int} {start : Nat} :
    position n = .ok start ↔ n = start ∧ start < positionLimit := by
  constructor
  · intro h
    unfold position at h
    split at h
    · cases h
    · next hrange =>
      split at h
      · cases h
      · next hnonneg =>
        obtain rfl := Except.ok.inj h
        simp only [inRange, Bool.not_eq_true', Bool.not_eq_false, Bool.and_eq_true,
          decide_eq_true_eq] at hrange
        omega
  · rintro ⟨rfl, hlimit⟩
    exact position_natCast hlimit

/-- What is written inside a file comes between what is before it and what is behind it. -/
theorem overwrite_eq {file : Bytes} {start : Nat} (h : start ≤ file.length) (data : Bytes) :
    overwrite file start data =
      file.take start ++ (data ++ file.drop (start + data.length)) := by
  unfold overwrite
  split
  · next hempty =>
    obtain rfl := List.isEmpty_iff.1 hempty
    rw [List.length_nil, Nat.add_zero, List.nil_append, List.take_append_drop]
  · have htake : (file.take start).length = start := by
      rw [List.length_take]
      omega
    rw [padTo, htake, Nat.sub_self, List.append_assoc]
    exact congrArg (· ++ _) (List.append_nil _)

/-- What is written to the head of a file comes before what is behind it. -/
theorem overwrite_zero (file data : Bytes) :
    overwrite file 0 data = data ++ file.drop data.length := by
  rw [overwrite_eq (Nat.zero_le _), List.take_zero, List.nil_append, Nat.zero_add]

theorem length_overwrite {file data : Bytes} {start : Nat} (h : start + data.length ≤ file.length) :
    (overwrite file start data).length = file.length := by
  rw [overwrite_eq (by omega), List.length_append, List.length_append, List.length_take,
    List.length_drop]
  omega

/-- Whether a file is other data with a part written into it and a last part written up to its end,
and nothing else that is new. -/
structure Placed (data : Bytes) (start : Nat) (part last file : Bytes) : Prop where
  room : start + part.length + last.length ≤ data.length
  length : file.length = data.length
  before : file.take start = data.take start
  inside : slice file start part.length = part
  between :
    slice file (start + part.length) (data.length - last.length - (start + part.length)) =
      slice data (start + part.length) (data.length - last.length - (start + part.length))
  atEnd : file.drop (data.length - last.length) = last

/-- A file that is written to twice, first inside and then up to its end, is made of what was in
front, what was written first, what was between the two, and what was written last. -/
theorem overwrite_overwrite {data part last : Bytes} {start : Nat}
    (hroom : start + part.length + last.length ≤ data.length) :
    overwrite (overwrite data start part) (data.length - last.length) last =
      data.take start ++ (part ++
        (slice data (start + part.length) (data.length - last.length - (start + part.length)) ++
          last)) := by
  have hlength : (overwrite data start part).length = data.length := length_overwrite (by omega)
  -- The second write ends where the file does.
  have hlast : (overwrite data start part).drop (data.length - last.length + last.length) = [] :=
    List.drop_eq_nil_of_le (by omega)
  have hfront : (data.take start ++ part).length = start + part.length := by
    rw [List.length_append, List.length_take]
    omega
  rw [@overwrite_eq (overwrite data start part) _ (by omega), hlast, List.append_nil,
    @overwrite_eq data start (by omega), ← List.append_assoc, List.take_append,
    List.take_of_length_le (by omega), hfront, slice]
  simp only [List.append_assoc]

/-- Two writes that do not overlap, the second one up to the end, place both parts. -/
theorem placed_overwrite {data part last : Bytes} {start : Nat}
    (hroom : start + part.length + last.length ≤ data.length) :
    Placed data start part last
      (overwrite (overwrite data start part) (data.length - last.length) last) := by
  have hbefore : (data.take start).length = start := by
    rw [List.length_take]
    omega
  have hbetween : (slice data (start + part.length)
      (data.length - last.length - (start + part.length))).length =
        data.length - last.length - (start + part.length) := by
    rw [length_slice]
    omega
  rw [overwrite_overwrite hroom]
  -- The bytes between the two parts are only moved about from here on.
  generalize hmiddle : slice data (start + part.length)
    (data.length - last.length - (start + part.length)) = middle at hbetween ⊢
  have hfront : (data.take start ++ part).length = start + part.length := by
    rw [List.length_append, hbefore]
  have hend : (data.take start ++ (part ++ middle)).length = data.length - last.length := by
    rw [List.length_append, List.length_append]
    omega
  refine ⟨hroom, ?_, List.take_left' hbefore, ?_, ?_, ?_⟩
  · simp only [List.length_append]
    omega
  · rw [slice, List.drop_left' hbefore, List.take_left]
  · rw [hmiddle, ← List.append_assoc, slice, List.drop_left' hfront, List.take_left' hbetween]
  · rw [← List.append_assoc part, ← List.append_assoc, List.drop_left' hend]

theorem Placed.drop_start {data part last file : Bytes} {start : Nat}
    (h : Placed data start part last file) :
    file.drop start = part ++ file.drop (start + part.length) := by
  rw [← List.take_append_drop part.length (file.drop _), List.drop_drop]
  exact congrArg (· ++ _) h.inside

theorem Placed.eq_append {data part last file : Bytes} {start : Nat}
    (h : Placed data start part last file) :
    file = data.take start ++ (part ++ file.drop (start + part.length)) := by
  rw [← h.drop_start, ← h.before, List.take_append_drop]

end Bytes

namespace Request

variable {suite : Suite} {request left : Request} {alignment : Int} {blob data : Bytes}
  {w : Written}

/-- Whether an image is the one of a request as it is written: its descriptors are the same, and if
the pair that signs it is reliable, it embeds the key of the pair and verifies. -/
structure WrittenAs (suite : Suite) (request : Request) (image : Image) : Prop where
  descriptors : image.descriptors = request.image.descriptors
  signed : (∀ pair, request.signer = some pair → pair.Reliable suite) →
    image.publicKey = request.signer.map (·.publicKey) ∧
      (request.signer.isSome → image.signatureValid = true)

/-- With a pair an image is signed with its private half. -/
theorem encode_of_signer {pair : KeyPair} (h : request.signer = some pair) :
    (request.encode suite alignment).1 =
      (request.image.encodeSigned suite pair.rsa alignment).1 := by
  unfold encode
  rw [h]
  rfl

/-- The image of a request is read back from its blob, whatever follows. -/
theorem parse_of_encode (h : request.encode suite alignment = (.ok blob, left))
    (hr : request.image.InRange) (halign : 1 ≤ alignment) :
    ∃ image, (∀ rest, Image.parse suite (blob ++ rest) = .ok image) ∧
      request.WrittenAs suite image := by
  obtain ⟨hblob, -⟩ := Prod.mk.inj h
  cases hpair : request.signer with
  | none =>
    rw [hpair] at hblob
    obtain ⟨n, -, hparse⟩ := @Image.parse_encodeUnsigned suite request.image _ alignment blob
      (Prod.ext hblob rfl) hr halign
    refine ⟨_, hparse, rfl, fun _ => ?_⟩
    rw [hpair]
    exact ⟨rfl, nofun⟩
  | some pair =>
    rw [hpair] at hblob
    obtain ⟨c, head, signature, behind, hc, -, hsignature, -, -, hparse⟩ :=
      @Image.parse_encodeSigned suite request.image pair.rsa _ alignment blob
        (Prod.ext hblob rfl) hr halign
    obtain ⟨-, hpublic, -⟩ := Image.contents_eq_ok hc
    refine ⟨_, hparse, rfl, fun hsigner => ?_⟩
    have hreliable := hsigner pair hpair
    have hkey := Outcome.ok_unique hreliable.publicKey hpublic
    rw [hpair]
    refine ⟨congrArg some hkey.symm, fun _ => ?_⟩
    refine (Image.verify_fit hc hreliable.accepts hsignature).2 ?_
    rw [← hkey]
    exact hreliable.fills

/-- A blob is written to the head of a file if there is one. -/
theorem writeBare_eq_ok {file : Bytes} :
    request.writeBare suite file alignment = (.ok (), w) ↔
      ∃ blob left, request.encode suite alignment = (.ok blob, left) ∧
        w = ⟨left, Bytes.overwrite file 0 blob⟩ := by
  simp only [writeBare]
  constructor
  · intro h
    split at h
    · cases h
    · next blob left hencode =>
      obtain ⟨-, rfl⟩ := Prod.mk.inj h
      exact ⟨blob, left, hencode, rfl⟩
  · rintro ⟨blob, left, hencode, rfl⟩
    simp only [hencode]

/-- An image without a footer is written to the head of the partition. -/
theorem applyInPlace_of_bare (hfooter : request.footer = none)
    (h : request.applyInPlace suite data alignment = (.ok (), w)) :
    ∃ blob left, request.encode suite alignment = (.ok blob, left) ∧
      w.file = Bytes.overwrite data 0 blob := by
  unfold applyInPlace at h
  rw [hfooter] at h
  obtain ⟨blob, left, hencode, rfl⟩ := writeBare_eq_ok.1 h
  exact ⟨blob, left, hencode, rfl⟩

/-- Blob and footer are written if there is a blob, if both have their places in the partition and
the blob ends where the footer begins or before, and if the footer has bytes. What the file held
before has no part in it. -/
theorem writeFooted_eq_ok {footer : Footer} {file : Bytes} {size : Nat} :
    request.writeFooted suite footer file size alignment = (.ok (), w) ↔
      ∃ blob left encoded, ∃ start : Nat, request.encode suite alignment = (.ok blob, left) ∧
        footer.originalImageSize = start ∧ start < Bytes.positionLimit ∧
        start + blob.length + Footer.size ≤ size ∧
        (placeBlob footer blob).encode = .ok encoded ∧
        w = ⟨{ left with footer := some (placeBlob footer blob) },
          Bytes.overwrite (Bytes.overwrite file start blob) (size - encoded.length) encoded⟩ := by
  have hend {encoded : Bytes} {placed : Footer} (hencoded : placed.encode = .ok encoded) :
      ((size : Int) - Footer.size).toNat = size - encoded.length := by
    rw [Footer.length_of_encode hencoded]
    omega
  simp only [writeFooted]
  constructor
  · intro h
    split at h
    · cases h
    · next blob left hencode =>
      split at h
      · cases h
      · next hroom =>
        split at h
        · cases h
        · next start hposition =>
          split at h
          · cases h
          · next encoded hencoded =>
            obtain ⟨-, rfl⟩ := Prod.mk.inj h
            obtain ⟨hstart, hlimit⟩ := Bytes.position_eq_ok.1 hposition
            have hstart' : footer.originalImageSize = start := hstart
            refine ⟨blob, left, encoded, start, hencode, hstart', hlimit, by omega, hencoded, ?_⟩
            rw [hend hencoded]
  · rintro ⟨blob, left, encoded, start, hencode, hstart, hlimit, hroom, hencoded, rfl⟩
    have hfits : ¬(size : Int) - Footer.size < footer.originalImageSize + blob.length := by
      omega
    have hposition : Bytes.position (placeBlob footer blob).vbmetaOffset = .ok start :=
      Bytes.position_eq_ok.2 ⟨hstart, hlimit⟩
    simp only [hencode, if_neg hfits, hposition, hencoded]
    rw [hend hencoded]

/-- An image with a footer is placed behind the partition's own image, and the updated footer at the
end. -/
theorem applyInPlace_of_footed {footer : Footer} (hfooter : request.footer = some footer)
    (h : request.applyInPlace suite data alignment = (.ok (), w)) :
    ∃ blob left encoded, request.encode suite alignment = (.ok blob, left) ∧
      0 ≤ footer.originalImageSize ∧ (placeBlob footer blob).encode = .ok encoded ∧
      w.request = { left with footer := some (placeBlob footer blob) } ∧
      Bytes.Placed data footer.originalImageSize.toNat blob encoded w.file := by
  unfold applyInPlace at h
  rw [hfooter] at h
  obtain ⟨blob, left, encoded, start, hencode, hstart, -, hroom, hencoded, rfl⟩ :=
    writeFooted_eq_ok.1 h
  have hsize := Footer.length_of_encode hencoded
  refine ⟨blob, left, encoded, hencode, by omega, hencoded, rfl, ?_⟩
  rw [hstart, Int.toNat_natCast]
  exact Bytes.placed_overwrite (by omega)

/-- A partition that is an image itself is one after it was written, and the image is read back. -/
theorem readImage_of_bare (hfooter : request.footer = none)
    (h : request.applyInPlace suite data alignment = (.ok (), w))
    (hr : request.image.InRange) (halign : 1 ≤ alignment) :
    ∃ image, PartitionInfo.readImage suite w.file = .ok (some image) ∧
      w.file.take 4 = Header.signature ∧ request.WrittenAs suite image := by
  obtain ⟨blob, left, hencode, hfile⟩ := applyInPlace_of_bare hfooter h
  obtain ⟨image, hparse, hcontents⟩ := parse_of_encode hencode hr halign
  have hparsed := hparse (data.drop blob.length)
  rw [← Bytes.overwrite_zero, ← hfile] at hparsed
  have hmagic := Image.take_of_parse hparsed
  refine ⟨image, PartitionInfo.readImage_eq_some.2 ?_, hmagic, hcontents⟩
  exact ⟨_, PartitionInfo.probe_of_signature hmagic, hparsed⟩

/-- A mark that stands a few bytes behind the start does not make a mark at the start. -/
theorem eq_zero_of_take_signature {front rest : Bytes} (hrest : rest.take 4 = Header.signature)
    (hfront : front.take 4 ≠ Header.signature)
    (h : (front ++ rest).take 4 = Header.signature) : front.length = 0 := by
  by_contra hlength
  by_cases hlong : 4 ≤ front.length
  · rw [List.take_append_of_le_length hlong] at h
    exact hfront h
  · -- The first byte of the mark, which occurs in it only once, would stand in its middle.
    have hfirst : (front ++ rest)[front.length]? = some 0x41 := by
      rw [List.getElem?_append_right (Nat.le_refl _), Nat.sub_self]
      have hhead := congrArg (·[0]?) hrest
      simp only [List.getElem?_take_of_lt (show 0 < 4 by decide)] at hhead
      exact hhead
    have hmiddle : Header.signature[front.length]? = some 0x41 := by
      rw [← h, List.getElem?_take_of_lt (by omega)]
      exact hfirst
    have hcases : front.length = 1 ∨ front.length = 2 ∨ front.length = 3 := by omega
    rcases hcases with hone | htwo | hthree
    · rw [hone] at hmiddle
      exact absurd hmiddle (by decide)
    · rw [htwo] at hmiddle
      exact absurd hmiddle (by decide)
    · rw [hthree] at hmiddle
      exact absurd hmiddle (by decide)

/-- The footer that was written is read back. -/
theorem footed_of_write {footer : Footer} {file encoded : Bytes} (hfooter : footer.InRange)
    (hencoded : (placeBlob footer blob).encode = .ok encoded)
    (hroom : footer.originalImageSize + blob.length + Footer.size ≤ file.length)
    (hsize : file.length < 1 <<< 63) (hnoImage : file.take 4 ≠ Header.signature)
    (htail : file.drop (file.length - Footer.size) = encoded) :
    Footed file (placeBlob footer blob) := by
  have horiginal : 0 ≤ footer.originalImageSize :=
    Footer.extents_nonneg hfooter.holds ("original_image_size", footer.originalImageSize)
      List.mem_cons_self
  -- The footer was read, so its blocks have their widths; only offset and size are new.
  have hfitted : Footer.layout.fitted (placeBlob footer blob).toRow =
      (placeBlob footer blob).toRow := by
    obtain ⟨hmagic, -, -, -, -, -, hreserved, -⟩ := hfooter.holds
    have hmagic' : footer.magic.length = 4 := hmagic
    have hreserved' : footer.reserved.length = 28 := hreserved
    simp only [Footer.layout, Footer.toRow, Layout.fitted, Field.fitted, placeBlob,
      Bytes.fit_of_length hmagic', Bytes.fit_of_length hreserved']
    rfl
  have hrange : (placeBlob footer blob).InRange := by
    refine ⟨Layout.holds_of_pack hencoded hfitted, hfooter.magic, ?_⟩
    simp only [Footer.extents, placeBlob, List.forall_mem_cons]
    refine ⟨?_, ?_, ?_, by simp⟩ <;> omega
  refine ⟨hnoImage, by omega, ?_, ?_⟩
  · rw [htail]
    exact Footer.decode_encode hencoded hrange
  · rw [PartitionInfo.fits, Bool.and_eq_true, decide_eq_true_iff, decide_eq_true_iff]
    show footer.originalImageSize ≤ file.length ∧
      footer.originalImageSize + blob.length ≤ (file.length : Int)
    omega

/-- A front part has no mark at its head if the whole has none. -/
theorem take_ne_signature (h : data.take 4 ≠ Header.signature) (n : Nat) :
    (data.take n).take 4 ≠ Header.signature := by
  intro htake
  have hfour := congrArg List.length htake
  rw [List.length_take, List.length_take, show Header.signature.length = 4 from rfl] at hfour
  rw [List.take_take, Nat.min_eq_left (by omega)] at htake
  exact h htake

/-- The footer that was written is found, unless there is nothing in front of the blob: then the
mark at its head is found first. The position is that of the blob in both cases. -/
theorem probe_of_placed {footer : Footer} {file encoded : Bytes} (hfooter : footer.InRange)
    (hnoImage : data.take 4 ≠ Header.signature) (hsize : data.length < 1 <<< 63)
    (hblob : ∀ rest, (blob ++ rest).take 4 = Header.signature)
    (hencoded : (placeBlob footer blob).encode = .ok encoded)
    (hplaced : Bytes.Placed data footer.originalImageSize.toNat blob encoded file) :
    ∃ info, PartitionInfo.probe file = some info ∧
      info.vbmetaOffset = footer.originalImageSize ∧
      info.footer =
        if 0 < footer.originalImageSize then some (placeBlob footer blob) else none := by
  have hroom := hplaced.room
  have hlength := hplaced.length
  have hencodedLength := Footer.length_of_encode hencoded
  have horiginal : 0 ≤ footer.originalImageSize :=
    Footer.extents_nonneg hfooter.holds ("original_image_size", footer.originalImageSize)
      List.mem_cons_self
  -- The mark stands at the head only if the blob does, since the own image of the partition does
  -- not begin with one. Otherwise the last bytes are looked at, which are those of the new footer.
  by_cases hmagic : file.take 4 = Header.signature
  · refine ⟨_, PartitionInfo.probe_of_signature hmagic, ?_⟩
    rw [hplaced.eq_append] at hmagic
    have hzero := eq_zero_of_take_signature (hblob _) (take_ne_signature hnoImage _) hmagic
    rw [List.length_take] at hzero
    have hnone : footer.originalImageSize = 0 := by
      omega
    rw [hnone]
    exact ⟨rfl, rfl⟩
  · have hlast := hplaced.atEnd
    rw [← hlength, hencodedLength] at hlast
    have hfooted : Footed file (placeBlob footer blob) :=
      footed_of_write hfooter hencoded (by omega) (by omega) hmagic hlast
    obtain ⟨info, hinfo, hfound⟩ :=
      Option.bind_eq_some_iff.1 (PartitionInfo.probe_eq_footer.2 hfooted)
    have hpos : 0 < footer.originalImageSize := by
      by_contra hzero
      apply hmagic
      rw [hplaced.eq_append, Int.toNat_of_nonpos (Int.not_lt.1 hzero)]
      exact hblob _
    refine ⟨info, hinfo, ?_, hfound.trans (if_pos hpos).symm⟩
    rw [PartitionInfo.vbmetaOffset, hfound]
    rfl

/-- What is in front of the blob stays, and so does the length of the partition. The image is read
back, through the footer or, if there is nothing in front, at the head. -/
theorem readImage_of_footed {footer : Footer} (hfooter : request.footer = some footer)
    (hfooted : Footed data footer) (hsize : data.length < 1 <<< 63)
    (h : request.applyInPlace suite data alignment = (.ok (), w))
    (hr : request.image.InRange) (halign : 1 ≤ alignment) :
    ∃ image, PartitionInfo.readImage suite w.file = .ok (some image) ∧
      w.file.length = data.length ∧
      w.file.take footer.originalImageSize.toNat = data.take footer.originalImageSize.toNat ∧
      (∀ found, Footed w.file found → found.originalImageSize = footer.originalImageSize) ∧
      request.WrittenAs suite image := by
  obtain ⟨blob, left, encoded, hencode, -, hencoded, -, hplaced⟩ :=
    applyInPlace_of_footed hfooter h
  obtain ⟨image, hparse, hcontents⟩ := parse_of_encode hencode hr halign
  obtain ⟨info, hinfo, hoffset, hinfoFooter⟩ := probe_of_placed
    (Footer.inRange_of_decode hfooted.decode) hfooted.noImage hsize
    (fun rest => Image.take_of_parse (hparse rest)) hencoded hplaced
  refine ⟨image, PartitionInfo.readImage_eq_some.2 ⟨info, hinfo, ?_⟩, hplaced.length,
    hplaced.before, ?_, hcontents⟩
  · rw [hoffset, hplaced.drop_start]
    exact hparse _
  · intro found hfound
    have hsome := PartitionInfo.probe_eq_footer.2 hfound
    rw [hinfo] at hsome
    have hfooter' := hinfoFooter.symm.trans hsome
    split at hfooter'
    · obtain rfl := Option.some.inj hfooter'
      rfl
    · cases hfooter'

end Request

end VerifiedBoot
