import VerifiedBoot.Proofs.Image.Extent
import VerifiedBoot.Proofs.Repair.Start

/-!
# The image and the blob that a footer declares

A footer says where the blob of a partition begins and how many bytes it has. The reader goes by the
beginning alone: an image reaches as far as its header says, and has to end in the partition. The
declared size has to fit the partition as well, but nothing compares the two. So an image that is
recorded may reach past the blob, and whoever loads the declared bytes only finds nothing there.

* `parse_take`: the first bytes of some data, as an image.
* `declared_of_footed`: what the sizes in a footer that counts are compared with.
* `extent_of_record`: where the image of a record ends, and what the declared blob holds.
-/

namespace VerifiedBoot

/-- The blob that a footer declares, in the contents of its partition. -/
def Footer.blobIn (footer : Footer) (data : Bytes) : Bytes :=
  Bytes.slice data footer.vbmetaOffset.toNat footer.vbmetaSize.toNat

theorem Header.size_le_extent {header : Header} (h : header.InRange) :
    (Header.size : Int) ≤ header.extent := by
  obtain ⟨-, -, -, ⟨hauthentication, -⟩, ⟨hauxiliary, -⟩, -⟩ := h.holds
  unfold extent
  omega

/-- The blob that a footer declares lies in the partition, if the footer counts. -/
theorem PartitionInfo.declared_of_footed {data : Bytes} {footer : Footer} (h : Footed data footer) :
    0 ≤ footer.vbmetaOffset ∧ 0 ≤ footer.vbmetaSize ∧
      footer.vbmetaOffset + footer.vbmetaSize ≤ data.length := by
  have hextents := Footer.extents_nonneg (Footer.inRange_of_decode h.decode).holds
  have hfits := h.fits
  unfold fits at hfits
  simp only [Bool.and_eq_true, decide_eq_true_eq] at hfits
  refine ⟨hextents ("vbmeta_offset", footer.vbmetaOffset) ?_,
    hextents ("vbmeta_size", footer.vbmetaSize) ?_, hfits.2⟩
  · exact List.mem_cons_of_mem _ List.mem_cons_self
  · exact List.mem_cons_of_mem _ (List.mem_cons_of_mem _ List.mem_cons_self)

namespace Verifier

variable {v : Verifier} {store : Store} {root : String} {found : Verification}

/-- The record of a partition with a footer is the image at the position that the footer gives. -/
theorem footed_of_record (h : v.verify store root = .ok found) {name : String} {record : Record}
    {footer : Footer} (hrecord : (name, record) ∈ found.records)
    (hfooter : record.footer = some footer) : ∃ data, store.open? name = .ok data ∧
      Footed data footer ∧
      Image.parseAt v.suite data footer.vbmetaOffset.toNat = .ok record.image := by
  obtain ⟨-, -, -, -, loaded, -, hrecords⟩ := verify_eq_ok h
  rw [hrecords] at hrecord
  obtain ⟨name', -, hsome⟩ := List.mem_filterMap.1 hrecord
  obtain ⟨record', hrecord', hpair⟩ := Option.map_eq_some_iff.1 hsome
  obtain ⟨rfl, rfl⟩ := Prod.mk.inj hpair
  -- The footer of a record is the one that the partition was probed for when its image was read.
  obtain ⟨data, info, hdata, hprobe, hparse, hinfo⟩ := recordOf?_eq_some.1 hrecord'
  rw [hfooter] at hinfo
  have hoffset : info.vbmetaOffset = footer.vbmetaOffset := by
    rw [PartitionInfo.vbmetaOffset, ← hinfo]
  rw [hoffset] at hparse
  refine ⟨data, hdata, PartitionInfo.probe_eq_footer.1 ?_,
    (Image.parseAt_eq ..).trans hparse⟩
  rw [hprobe]
  exact hinfo.symm

/-- **Where the image of a record ends.** A recorded image that was found through a footer ends in
its partition, and so does the blob that the footer declares. Whoever reads that blob alone finds
the same image exactly if it ends in there. Otherwise the blob is turned down: it is cut off in the
header or in the blocks. -/
theorem extent_of_record {v : Verifier} {store : Store} {root : String} {found : Verification}
    (h : v.verify store root = .ok found) {name : String} {record : Record} {footer : Footer}
    (hrecord : (name, record) ∈ found.records) (hfooter : record.footer = some footer) :
    ∃ data, store.open? name = .ok data ∧ 0 ≤ footer.vbmetaOffset ∧
      Image.parseAt v.suite data footer.vbmetaOffset.toNat = .ok record.image ∧
      footer.vbmetaOffset + record.image.header.extent ≤ data.length ∧
      footer.vbmetaOffset + footer.vbmetaSize ≤ data.length ∧
      (Image.parse v.suite (footer.blobIn data) = .ok record.image ↔
        footer.vbmetaOffset + record.image.header.extent ≤
          footer.vbmetaOffset + footer.vbmetaSize) ∧
      (footer.vbmetaSize < record.image.header.extent →
        Image.parse v.suite (footer.blobIn data) = .error (.malformed
          (if footer.vbmetaSize < Header.size then .headerLength else .blocksPastEnd))) := by
  obtain ⟨data, hdata, hfooted, hparse⟩ := footed_of_record h hrecord hfooter
  obtain ⟨hoffset, hsize, hfits⟩ := PartitionInfo.declared_of_footed hfooted
  have hrest := (Image.parseAt_eq ..).symm.trans hparse
  have hblob := Image.parse_take hrest footer.vbmetaSize.toNat
  rw [Int.toNat_of_nonneg hsize] at hblob
  obtain ⟨hheader, hwhole⟩ := Image.whole_of_parse hrest
  have hextent := Header.size_le_extent (Header.inRange_of_decode hheader)
  have hends : record.image.header.extent ≤ (data.drop footer.vbmetaOffset.toNat).length := hwhole
  rw [List.length_drop] at hends
  refine ⟨data, hdata, hoffset, hparse, by omega, hfits, ?_, fun hlong => ?_⟩
  · rw [Footer.blobIn, Bytes.slice, hblob]
    split
    · exact iff_of_true rfl (by omega)
    · exact iff_of_false (fun h => by cases h) (by omega)
  · rw [Footer.blobIn, Bytes.slice, hblob, if_neg (by omega)]
    by_cases hshort : footer.vbmetaSize < Header.size
    · rw [if_pos hshort, if_pos (by omega)]
    · rw [if_neg hshort, if_neg (by omega)]

/-- A root whose image has no descriptors and no key is all that its verification finds. -/
theorem verify_of_leaf {image : Image} {record : Record}
    (himage : store.image v.suite root = .ok (some image)) (hdescriptors : image.descriptors = [])
    (hkey : image.publicKey = none) (hrecord : v.recordOf? store root = some record) :
    v.verify store root = .ok ⟨root, [(root, record)], [], []⟩ := by
  refine Outcome.bind_eq_ok.2 ⟨([], ⟨[root], [], []⟩), Outcome.bind_eq_ok.2 ⟨_, himage, ?_⟩,
    Outcome.bind_eq_ok.2 ⟨_, walk_nil, ?_⟩⟩
  · simp only [hkey, Pending.ofImage, hdescriptors]
    rfl
  · rw [records_cons hrecord]
    rfl

/-- A footer for a blob of some size behind sixteen bytes. -/
def declaringFooter (size : Int) : Footer :=
  { Footer.empty with originalImageSize := 16, vbmetaOffset := 16, vbmetaSize := size }

/-- Sixteen bytes, the image without descriptors, which takes 256 bytes, and a footer that declares
some size for it. -/
def declaringData (size : Int) : Bytes :=
  Bytes.zeros 16 ++ (Image.empty.encodeUnsigned .standard 64).1.toOption.getD [] ++
    (declaringFooter size).encode.toOption.getD []

/-- A store with such a partition alone. -/
def declaringStore (size : Int) : Store :=
  .ofList [("boot", declaringData size)]

/-- The image of the partition. -/
def declaredImage : Image :=
  Image.unsignedImage Image.empty 0

/-- The image is recorded with the footer, if the footer counts. -/
theorem verify_declaringStore {size : Int}
    (hprobe : PartitionInfo.probe (declaringData size) = some ⟨272, some (declaringFooter size)⟩) :
    verify ⟨.standard, defaultChunkSize⟩ (declaringStore size) "boot" =
      .ok ⟨"boot", [("boot", ⟨declaredImage, some (declaringFooter size)⟩)], [], []⟩ := by
  have hparse : Image.parse .standard ((declaringData size).drop 16) = .ok declaredImage := by
    have hrange : Image.empty.InRange := Image.inRange_of_descriptors (List.forall_mem_nil _)
    have hblob := @Image.parse_getD_encodeUnsigned .standard Image.empty 64 0 (by decide +kernel)
      (by decide +kernel) hrange (by decide)
    refine Image.parse_of_take hblob ?_
    rw [declaringData, List.append_assoc, List.drop_left' (Bytes.length_zeros 16)]
    exact List.take_append_of_le_length (by decide +kernel)
  have hopen : (declaringStore size).open? "boot" = .ok (declaringData size) := rfl
  have hrecord : recordOf? ⟨.standard, defaultChunkSize⟩ (declaringStore size) "boot" =
      some ⟨declaredImage, some (declaringFooter size)⟩ :=
    recordOf?_eq_some.2 ⟨_, _, hopen, hprobe, hparse, rfl⟩
  have himage := Store.image_eq_ok.2
    ⟨_, hopen, PartitionInfo.readImage_eq_some.2 ⟨_, hprobe, hparse⟩⟩
  exact verify_of_leaf himage rfl rfl hrecord

/-- A blob of 256 bytes holds the image, and one of 255 bytes nothing. -/
theorem extent_of_record_declaringStore :
    Image.parse .standard ((declaringFooter 256).blobIn (declaringData 256)) = .ok declaredImage ∧
      Image.parse .standard ((declaringFooter 255).blobIn (declaringData 255)) =
        .error (.malformed .headerLength) := by
  constructor
  · obtain ⟨data, hdata, -, -, -, -, hwhole, -⟩ := extent_of_record
      (@verify_declaringStore 256 (by decide +kernel)) List.mem_cons_self rfl
    obtain rfl := Except.ok.inj hdata
    exact hwhole.2 (by decide)
  · obtain ⟨data, hdata, -, -, -, -, -, hcut⟩ := extent_of_record
      (@verify_declaringStore 255 (by decide +kernel)) List.mem_cons_self rfl
    obtain rfl := Except.ok.inj hdata
    exact hcut (by decide)

/-- With a footer that declares one byte too few the image is recorded all the same, and ends behind
the declared blob. -/
theorem exists_record_past_blob : ∃ found record footer,
    verify ⟨.standard, defaultChunkSize⟩ (declaringStore 255) "boot" = .ok found ∧
      ("boot", record) ∈ found.records ∧ record.footer = some footer ∧
      ¬footer.vbmetaOffset + record.image.header.extent ≤
        footer.vbmetaOffset + footer.vbmetaSize :=
  ⟨_, _, _, verify_declaringStore (by decide +kernel), List.mem_cons_self, rfl, by decide⟩

end Verifier

end VerifiedBoot
