import VerifiedBoot.Partition.Store
import VerifiedBoot.Proofs.Image.Reading

/-!
# Where an image is found

A partition is an image itself if it begins with the mark of one. Otherwise a footer counts if it is
in the last bytes and its sizes fit. The image is the one that can be read at the position that this
gives.
-/

namespace VerifiedBoot

/-- Whether a partition is no image itself and ends in a footer whose sizes fit. -/
structure Footed (data : Bytes) (footer : Footer) : Prop where
  noImage : data.take 4 ≠ Header.signature
  length : Footer.size ≤ data.length
  decode : Footer.decode (data.drop (data.length - Footer.size)) = .ok footer
  fits : PartitionInfo.fits footer data.length

namespace PartitionInfo

/-- A footer is found where there is one. -/
theorem probe_eq_footer {data : Bytes} {footer : Footer} :
    (probe data).bind (·.footer) = some footer ↔ Footed data footer := by
  unfold probe
  constructor
  · intro h
    split at h
    · cases h
    -- A footer is looked for only where there is no mark at the head and there is room for one.
    · next hmagic =>
      split at h
      · cases h
      · next hlength =>
        simp only at h
        split at h
        · cases h
        · next found hfound =>
          split at h
          · next hfits =>
            obtain rfl := Option.some.inj h
            exact ⟨hmagic, by omega, hfound, hfits⟩
          · cases h
  · rintro ⟨hmagic, hlength, hdecode, hfits⟩
    rw [if_neg hmagic, if_neg (by omega)]
    simp only [hdecode]
    rw [if_pos hfits]
    rfl

/-- A footer that counts does not say that the partition's own image is longer than the
partition. -/
theorem originalImageSize_le {data : Bytes} {footer : Footer} (h : Footed data footer) :
    footer.originalImageSize ≤ data.length := by
  have hfits := h.fits
  unfold fits at hfits
  simp only [Bool.and_eq_true, decide_eq_true_eq] at hfits
  exact hfits.1

theorem originalImageSize_nonneg {data : Bytes} {footer : Footer} (h : Footed data footer) :
    0 ≤ footer.originalImageSize :=
  Footer.extents_nonneg (Footer.inRange_of_decode h.decode).holds
    ("original_image_size", footer.originalImageSize) List.mem_cons_self

/-- An image at the head of a partition is found there. -/
theorem probe_of_signature {data : Bytes} (h : data.take 4 = Header.signature) :
    probe data = some ⟨0, none⟩ :=
  if_pos h

/-- A partition with an image at its head has no footer. -/
theorem footer_of_signature {data : Bytes} (h : data.take 4 = Header.signature) :
    (probe data).bind (·.footer) = none := by
  rw [probe_of_signature h]
  rfl

/-- The image of a partition is the one that can be read at its position. -/
theorem readImage_eq_some {suite : Suite} {data : Bytes} {image : Image} :
    readImage suite data = .ok (some image) ↔ ∃ info, probe data = some info ∧
      Image.parse suite (data.drop info.vbmetaOffset.toNat) = .ok image := by
  unfold readImage
  cases hprobe : probe data with
  | none =>
    constructor
    · exact nofun
    · rintro ⟨info, hinfo, -⟩
      cases hinfo
  | some info =>
    simp only [Image.parseAt_eq]
    constructor
    · intro h
      split at h
      · next parsed hparsed =>
        obtain rfl := Option.some.inj (Except.ok.inj h)
        exact ⟨info, rfl, hparsed⟩
      · cases h
      · cases h
    · rintro ⟨info', hinfo, hparsed⟩
      obtain rfl := Option.some.inj hinfo
      rw [hparsed]

/-- What can be read as an image from its head is read as that image. -/
theorem readImage_of_parse {suite : Suite} {data : Bytes} {image : Image}
    (h : Image.parse suite data = .ok image) : readImage suite data = .ok (some image) :=
  readImage_eq_some.2 ⟨_, probe_of_signature (Image.take_of_parse h), h⟩

/-- A partition is an image itself, or has a footer. -/
theorem probe_cases {data : Bytes} {info : PartitionInfo} (h : probe data = some info) :
    (data.take 4 = Header.signature ∧ info.footer = none) ∨
      ∃ footer, info.footer = some footer ∧ Footed data footer := by
  cases hfooter : info.footer with
  | some footer =>
    refine .inr ⟨footer, rfl, probe_eq_footer.1 ?_⟩
    rw [h]
    exact hfooter
  | none =>
    unfold probe at h
    split at h
    · next hmagic => exact .inl ⟨hmagic, rfl⟩
    · split at h
      · cases h
      · simp only at h
        split at h
        · cases h
        · split at h
          · obtain rfl := Option.some.inj h
            cases hfooter
          · cases h

end PartitionInfo

theorem Store.image_eq_ok {store : Store} {suite : Suite} {name : String} {image : Option Image} :
    store.image suite name = .ok image ↔
      ∃ data, store.open? name = .ok data ∧ PartitionInfo.readImage suite data = .ok image :=
  Outcome.bind_eq_ok

theorem Store.image_of_parse {store : Store} {suite : Suite} {name : String} {data : Bytes}
    {image : Image} (hopen : store.open? name = .ok data)
    (hparse : Image.parse suite data = .ok image) : store.image suite name = .ok (some image) :=
  Store.image_eq_ok.2 ⟨data, hopen, PartitionInfo.readImage_of_parse hparse⟩

end VerifiedBoot
