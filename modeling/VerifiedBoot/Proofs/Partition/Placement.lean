import VerifiedBoot.Proofs.Partition.Rewrite

/-!
# Where a blob goes in a partition with a footer

The blob of a request with a footer goes behind the partition's own image, and the updated footer
stays at the end. The two never overlap and the partition does not grow: a blob that does not fit in
between is turned down before anything is changed. Nothing else fails once there is a blob, if the
fields of the footer fit their places.
-/

namespace VerifiedBoot

namespace Request

variable {suite : Suite} {request left : Request} {alignment : Int} {blob data : Bytes}
  {footer : Footer}

theorem footer_of_encode {outcome : Except Error Bytes}
    (h : request.encode suite alignment = (outcome, left)) : left.footer = request.footer := by
  obtain ⟨-, rfl⟩ := Prod.mk.inj h
  rfl

/-- The footer for a blob can be written if the blob has a size at all. -/
theorem exists_encode_placeBlob (hfooter : Footer.layout.Holds footer.toRow)
    (hblob : blob.length < 1 <<< 64) : ∃ encoded, (placeBlob footer blob).encode = .ok encoded := by
  obtain ⟨hmagic, hmajor, hminor, horiginal, -, -, hreserved, -⟩ := hfooter
  refine Layout.exists_pack ⟨hmagic, hmajor, hminor, horiginal, horiginal, ?_, hreserved, trivial⟩
  exact ⟨Int.natCast_nonneg _, Int.ofNat_lt.2 hblob⟩

/-- An attempt ends in one of three ways: there is no blob, or it does not fit between the
partition's own image and the footer, or it is written. Only the last one changes anything. -/
theorem applyInPlace_cases (hfooter : request.footer = some footer)
    (hholds : Footer.layout.Holds footer.toRow) (hdata : data.length < 1 <<< 63) :
    (∃ e left, request.encode suite alignment = (.error e, left) ∧
      request.applyInPlace suite data alignment = (.error e, ⟨left, data⟩)) ∨
    ∃ blob left, request.encode suite alignment = (.ok blob, left) ∧
      ((data.length : Int) - Footer.size < footer.originalImageSize + blob.length ∧
        request.applyInPlace suite data alignment =
          (.error (.refused (.noRoom blob.length left.partition)), ⟨left, data⟩) ∨
      ¬(data.length : Int) - Footer.size < footer.originalImageSize + blob.length ∧
        ∃ w, request.applyInPlace suite data alignment = (.ok (), w)) := by
  simp only [applyInPlace, hfooter, writeFooted]
  cases hencode : request.encode suite alignment with
  | mk outcome left =>
    cases outcome with
    | error e => exact .inl ⟨e, left, rfl, rfl⟩
    | ok blob =>
      refine .inr ⟨blob, left, rfl, ?_⟩
      by_cases hroom : (data.length : Int) - Footer.size < footer.originalImageSize + blob.length
      · exact .inl ⟨hroom, by simp only [if_pos hroom]⟩
      · -- The blob ends before the footer, so its place is a position.
        obtain ⟨start, hstart⟩ := Int.eq_ofNat_of_zero_le hholds.2.2.2.1.1
        have hstart' : footer.originalImageSize = start := hstart
        have hposition : Bytes.position (placeBlob footer blob).vbmetaOffset = .ok start := by
          change Bytes.position footer.originalImageSize = _
          rw [hstart']
          apply Bytes.position_natCast
          change start < 1 <<< 63
          omega
        obtain ⟨encoded, hencoded⟩ := @exists_encode_placeBlob blob footer hholds (by omega)
        refine .inr ⟨hroom, ?_⟩
        simp only [if_neg hroom, hposition, hencoded]
        exact ⟨_, rfl⟩

/-- A blob that has room in front of the footer is written. -/
theorem exists_applyInPlace (hfooter : request.footer = some footer)
    (hholds : Footer.layout.Holds footer.toRow) (hdata : data.length < 1 <<< 63)
    (hblob : (request.encode suite alignment).1 = .ok blob)
    (hroom : footer.originalImageSize + blob.length ≤ (data.length : Int) - Footer.size) :
    ∃ w, request.applyInPlace suite data alignment = (.ok (), w) := by
  rcases @applyInPlace_cases suite _ alignment _ _ hfooter hholds hdata with
    ⟨e, left, hencode, -⟩ | ⟨blob', left, hencode, ⟨hfull, -⟩ | ⟨-, hw⟩⟩
  · rw [hencode] at hblob
    cases hblob
  · rw [hencode] at hblob
    obtain rfl := Except.ok.inj hblob
    omega
  · exact hw

/-- **Writing to a partition with a footer.** If it succeeds, the blob stands behind the partition's
own image and the updated footer, in which only the extent of the blob is new, at the end; all other
bytes and the length of the partition are as before. If it fails, neither the partition nor the
footer has changed. It fails exactly if the image has no blob, or if there is no room for the blob
in front of the footer. -/
theorem applyInPlace_footed {suite : Suite} {request : Request} {footer : Footer} {data : Bytes}
    {alignment : Int} (hfooter : request.footer = some footer)
    (hholds : Footer.layout.Holds footer.toRow) (hdata : data.length < 1 <<< 63) :
    (∀ w, request.applyInPlace suite data alignment = (.ok (), w) →
      ∃ (blob : Bytes) (left : Request) (placed : Footer) (encoded : Bytes),
        request.encode suite alignment = (.ok blob, left) ∧
        placed = { footer with
          vbmetaOffset := footer.originalImageSize
          vbmetaSize := blob.length } ∧
        w.request = { left with footer := some placed } ∧
        placed.encode = .ok encoded ∧ encoded.length = Footer.size ∧
        Bytes.Placed data footer.originalImageSize.toNat blob encoded w.file) ∧
    (∀ e w, request.applyInPlace suite data alignment = (.error e, w) →
      w.file = data ∧ w.request.footer = some footer) ∧
    ((∃ e w, request.applyInPlace suite data alignment = (.error e, w)) ↔
      (∃ e left, request.encode suite alignment = (.error e, left)) ∨
      ∃ blob left, request.encode suite alignment = (.ok blob, left) ∧
        (data.length : Int) - Footer.size < footer.originalImageSize + blob.length) := by
  refine ⟨?_, ?_, ?_⟩
  · intro w h
    obtain ⟨blob, left, encoded, hencode, -, hencoded, hrequest, hplaced⟩ :=
      applyInPlace_of_footed hfooter h
    exact ⟨blob, left, placeBlob footer blob, encoded, hencode, rfl, hrequest, hencoded,
      Footer.length_of_encode hencoded, hplaced⟩
  · intro e w h
    rcases @applyInPlace_cases suite _ alignment _ _ hfooter hholds hdata with
      ⟨cause, left, hencode, hfailed⟩ | ⟨blob, left, hencode, ⟨-, hfailed⟩ | ⟨-, done, hdone⟩⟩
    · rw [hfailed] at h
      obtain ⟨-, rfl⟩ := Prod.mk.inj h
      exact ⟨rfl, (footer_of_encode hencode).trans hfooter⟩
    · rw [hfailed] at h
      obtain ⟨-, rfl⟩ := Prod.mk.inj h
      exact ⟨rfl, (footer_of_encode hencode).trans hfooter⟩
    · rw [hdone] at h
      cases h
  · rcases @applyInPlace_cases suite _ alignment _ _ hfooter hholds hdata with
      ⟨cause, left, hencode, hfailed⟩ | ⟨blob, left, hencode, ⟨hroom, hfailed⟩ | ⟨hroom, w, hdone⟩⟩
    · exact ⟨fun _ => .inl ⟨cause, left, hencode⟩, fun _ => ⟨_, _, hfailed⟩⟩
    · exact ⟨fun _ => .inr ⟨blob, left, hencode, hroom⟩, fun _ => ⟨_, _, hfailed⟩⟩
    · rw [hdone, hencode]
      constructor
      · rintro ⟨e, w, h⟩
        cases h
      · rintro (⟨e, left, h⟩ | ⟨blob', left', h, hfull⟩)
        · cases h
        · obtain ⟨hblob, -⟩ := Prod.mk.inj h
          obtain rfl := Except.ok.inj hblob
          exact absurd hfull hroom

/-- A request for a partition whose own image has 100 bytes. -/
def smallRequest : Request where
  partition := "system"
  image := Image.mixedImage
  footer := some { Footer.empty with originalImageSize := 100 }
  signer := none

theorem inRange_smallFooter :
    ({ Footer.empty with originalImageSize := 100 } : Footer).InRange := by
  refine ⟨⟨rfl, ?_, ?_, ?_, ?_, ?_, rfl, trivial⟩, rfl, by decide⟩
  all_goals exact ⟨by decide, by decide⟩

/-- The request is written to a partition of 2000 bytes, and is turned down by one that is shorter
than a footer. -/
theorem applyInPlace_footed_smallRequest :
    Footer.layout.Holds { Footer.empty with originalImageSize := 100 }.toRow ∧
    (∃ w blob encoded, smallRequest.applyInPlace .standard (Bytes.zeros 2000) 64 = (.ok (), w) ∧
      (Bytes.zeros 2000).length < 1 <<< 63 ∧
      Bytes.Placed (Bytes.zeros 2000) 100 blob encoded w.file) ∧
    ∃ e w, smallRequest.applyInPlace .standard (Bytes.zeros 40) 64 = (.error e, w) ∧
      (Bytes.zeros 40).length < 1 <<< 63 ∧
      w.file = Bytes.zeros 40 ∧ w.request.footer = smallRequest.footer := by
  have hholds := inRange_smallFooter.holds
  have hlong : (Bytes.zeros 2000).length < 1 <<< 63 := by decide +kernel
  have hshort : (Bytes.zeros 40).length < 1 <<< 63 := by decide +kernel
  obtain ⟨hplaced, -, -⟩ :=
    @applyInPlace_footed .standard smallRequest _ (Bytes.zeros 2000) 64 rfl hholds hlong
  obtain ⟨-, hkept, -⟩ :=
    @applyInPlace_footed .standard smallRequest _ (Bytes.zeros 40) 64 rfl hholds hshort
  refine ⟨hholds, ?_, ?_⟩
  · have hok : (smallRequest.applyInPlace .standard (Bytes.zeros 2000) 64).1.toBool = true := by
      decide +kernel
    obtain ⟨⟨⟩, w, hwritten⟩ := Outcome.exists_of_toBool hok
    obtain ⟨blob, left, placed, encoded, -, -, -, -, -, hfile⟩ := hplaced w hwritten
    exact ⟨w, blob, encoded, hwritten, hlong, hfile⟩
  · have hfailed : (smallRequest.applyInPlace .standard (Bytes.zeros 40) 64).1.toBool = false := by
      decide +kernel
    cases hwritten : smallRequest.applyInPlace .standard (Bytes.zeros 40) 64 with
    | mk outcome w =>
      rw [hwritten] at hfailed
      cases outcome with
      | ok => cases hfailed
      | error e => exact ⟨e, w, rfl, hshort, hkept e w hwritten⟩

end Request

end VerifiedBoot
