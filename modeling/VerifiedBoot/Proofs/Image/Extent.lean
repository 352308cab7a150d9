import VerifiedBoot.Proofs.Image.Isolation

/-!
# An image is read from the bytes that its header declares

The same reader serves a partition that is nothing but an image, a blob that was filled up to an
alignment, and a blob in front of a footer. In all of them the image ends where its header says: a
byte behind that place is never looked at, and without one of the bytes before it the image is
turned down.

* `parse_of_take`: data with the same first bytes, up to there, is read as the same image.
* `parse_of_not_whole`: data that ends before is turned down.
* `parse_extent`: both at once, with the place that the cursor is moved to.
-/

namespace VerifiedBoot

namespace Bytes

theorem slice_take {data : Bytes} {start size n : Nat} (h : start + size ≤ n) :
    slice (data.take n) start size = slice data start size := by
  rw [slice, slice, List.drop_take, List.take_take, Nat.min_eq_left (by omega)]

end Bytes

namespace Image

variable {suite : Suite} {data other : Bytes} {image : Image} {header : Header}

/-- Data that an image is read from begins with its header and is as long as that declares. -/
theorem whole_of_parse (h : parse suite data = .ok image) :
    Header.decode (data.take Header.size) = .ok image.header ∧ Whole image.header data := by
  obtain ⟨b, -, hblocks, hheader, -⟩ := parse_eq_ok h
  obtain ⟨hdecode, hwhole, -⟩ := blocks_eq_ok.1 hblocks
  rw [hheader]
  exact ⟨hdecode, hwhole⟩

/-- Header and blocks are the same in data that is the same up to the end of the blocks. -/
theorem blocks_of_take (hheader : Header.decode (data.take Header.size) = .ok header)
    (hwhole : Whole header data)
    (hsame : other.take header.extent.toNat = data.take header.extent.toNat) :
    blocks other = blocks data := by
  obtain ⟨hfirst, hsecond⟩ := Header.blocks_nonneg hheader
  have hextent : header.extent.toNat =
      Header.size + header.authenticationSize.toNat + header.auxiliarySize.toNat := by
    unfold Header.extent
    omega
  rw [hextent] at hsame
  -- All that is read of the blocks is a slice in front of their end.
  have hslice {start size : Nat} (h : start + size ≤ Header.size +
      header.authenticationSize.toNat + header.auxiliarySize.toNat) :
      Bytes.slice other start size = Bytes.slice data start size := by
    rw [← Bytes.slice_take h, hsame, Bytes.slice_take h]
  have hhead : other.take Header.size = data.take Header.size := by
    have h := @hslice 0 Header.size (by omega)
    rwa [Bytes.slice, Bytes.slice, List.drop_zero, List.drop_zero] at h
  have hauthentication : authenticationIn header other = authenticationIn header data :=
    hslice (by omega)
  have hauxiliary : auxiliaryIn header other = auxiliaryIn header data := hslice (by omega)
  have hother : Whole header other := by
    have hlength := congrArg List.length hsame
    rw [List.length_take, List.length_take] at hlength
    unfold Whole at hwhole ⊢
    omega
  rw [blocks_of_whole hheader hwhole, blocks_of_whole (hhead.symm ▸ hheader) hother, hhead,
    hauthentication, hauxiliary]

/-- Data that is the same up to the end of the blocks is read as the same image. -/
theorem parse_of_take (h : parse suite data = .ok image)
    (hsame : other.take image.header.extent.toNat = data.take image.header.extent.toNat) :
    parse suite other = .ok image := by
  obtain ⟨hheader, hwhole⟩ := whole_of_parse h
  rw [← h, parse_eq, parse_eq, blocks_of_take hheader hwhole hsame]

theorem parse_of_length_lt (h : data.length < Header.size) :
    parse suite data = .error (.malformed .headerLength) := by
  rw [parse_eq, blocks, @readBlocks_of_short ⟨data, 0⟩ h]
  rfl

/-- Data that ends within the blocks of its header is turned down. -/
theorem parse_of_not_whole (hheader : Header.decode (data.take Header.size) = .ok header)
    (hlength : Header.size ≤ data.length) (hcut : ¬Whole header data) :
    parse suite data = .error (.malformed .blocksPastEnd) := by
  rw [parse_eq, blocks, @readBlocks_of_not_whole ⟨data, 0⟩ header hlength hheader hcut]
  rfl

/-- The first bytes of data that begins with an image are read as that image if they reach to its
end, and are turned down otherwise. -/
theorem parse_take (h : parse suite data = .ok image) (n : Nat) :
    parse suite (data.take n) = if image.header.extent ≤ n then .ok image else
      .error (.malformed (if n < Header.size then .headerLength else .blocksPastEnd)) := by
  obtain ⟨hheader, hwhole⟩ := whole_of_parse h
  have hlength : image.header.extent ≤ data.length := hwhole
  split
  · refine parse_of_take h ?_
    rw [List.take_take, Nat.min_eq_left (by omega)]
  · have hcut : (data.take n).length = n := by
      rw [List.length_take]
      omega
    split
    · exact parse_of_length_lt (by omega)
    · -- The header is whole, so it is read, and asks for more than there is.
      have hsame : (data.take n).take Header.size = data.take Header.size := by
        rw [List.take_take, Nat.min_eq_left (by omega)]
      refine parse_of_not_whole (hsame ▸ hheader) (by omega) fun hwhole => ?_
      have hfits : image.header.extent ≤ (data.take n).length := hwhole
      omega

/-- **An image is read from exactly the bytes that its header declares.** It is read where it stands
in a file, whatever comes before and behind it, and the cursor then stands behind these bytes. It is
also read from its beginning alone, as long as the end of the blocks is there; data that was cut
before that end is turned down. -/
theorem parse_extent {suite : Suite} {data : Bytes} {image : Image}
    (h : parse suite data = .ok image) :
    (∀ before after : Bytes,
      parseAt suite (before ++ data ++ after) before.length = .ok image ∧
      read suite ⟨before ++ data ++ after, before.length⟩ =
        .ok (image, ⟨before ++ data ++ after, before.length + image.header.extent.toNat⟩)) ∧
    (∀ n : Nat, image.header.extent ≤ n → parse suite (data.take n) = .ok image) ∧
    ∀ n : Nat, n < image.header.extent → parse suite (data.take n) =
      .error (.malformed (if n < Header.size then .headerLength else .blocksPastEnd)) := by
  obtain ⟨-, hwhole⟩ := whole_of_parse h
  have hlength : image.header.extent ≤ data.length := hwhole
  refine ⟨fun before after => ?_, fun n hn => ?_, fun n hn => ?_⟩
  · have hahead : (Cursor.mk (before ++ data ++ after) before.length).ahead = data ++ after := by
      rw [Cursor.ahead, List.append_assoc, List.drop_left]
    have hread : parse suite (data ++ after) = .ok image := by
      refine parse_of_take h ?_
      rw [List.take_append_of_le_length (by omega)]
    have hcursor : read suite ⟨before ++ data ++ after, before.length⟩ =
        .ok (image, ⟨before ++ data ++ after, before.length + image.header.extent.toNat⟩) := by
      rw [read_eq, hahead, hread]
      rfl
    refine ⟨?_, hcursor⟩
    rw [parseAt, hcursor]
    rfl
  · rw [parse_take h, if_pos hn]
  · rw [parse_take h, if_neg (Int.not_le.2 hn)]

/-- The data of the key of 512 bits, filled up to an alignment of 1024 bytes. -/
def alignedBlob : Bytes :=
  Bytes.padTo 1024 weakBlob

/-- The image in the aligned data takes 576 bytes: it is read in the middle of a file, where the
cursor moves past them, and from just these bytes, and not from one byte less. -/
theorem parse_extent_alignedBlob :
    ∃ image, parse .standard alignedBlob = .ok image ∧ image.header.extent = 576 ∧
      parseAt .standard ([7, 7, 7] ++ alignedBlob ++ [9]) 3 = .ok image ∧
      read .standard ⟨[7, 7, 7] ++ alignedBlob ++ [9], 3⟩ =
        .ok (image, ⟨[7, 7, 7] ++ alignedBlob ++ [9], 579⟩) ∧
      parse .standard (alignedBlob.take 576) = .ok image ∧
      parse .standard (alignedBlob.take 575) = .error (.malformed .blocksPastEnd) ∧
      parse .standard (alignedBlob.take 255) = .error (.malformed .headerLength) := by
  obtain ⟨hdigest, hsignature⟩ := length_weakSignature
  have hparse : parse .standard alignedBlob = .ok (weakImage .standard weakDigest weakSignature) :=
    parse_weakData hdigest hsignature (Bytes.length_zeros 32) _
  have hextent : (weakImage .standard weakDigest weakSignature).header.extent = 576 := rfl
  obtain ⟨hinside, hwhole, hcut⟩ := parse_extent hparse
  obtain ⟨hfound, hcursor⟩ := hinside [7, 7, 7] [9]
  rw [hextent] at hcursor hwhole hcut
  exact ⟨_, hparse, hextent, hfound, hcursor, hwhole 576 (by decide), hcut 575 (by decide),
    hcut 255 (by decide)⟩

end Image

end VerifiedBoot
