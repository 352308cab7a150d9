import VerifiedBoot.Image.Encode
import VerifiedBoot.Proofs.Image.Cursor
import VerifiedBoot.Proofs.Rounding

/-!
# Blocks of an image and slices of a block

Whoever writes a header whose sizes are those of the two blocks behind it gets back just these
blocks. Whoever writes a block as parts one after the other gets back each part by its offset and
its size. What fills a block or a blob up does not matter.
-/

namespace VerifiedBoot

namespace Image

/-- A header and its blocks are read back, whatever follows them. -/
theorem blocks_append {header : Header} {head authentication auxiliary : Bytes}
    (hlength : head.length = Header.size) (hdecode : Header.decode head = .ok header)
    (hauthentication : header.authenticationSize = authentication.length)
    (hauxiliary : header.auxiliarySize = auxiliary.length) (rest : Bytes) :
    blocks (head ++ (authentication ++ (auxiliary ++ rest))) =
      .ok ⟨head, header, authentication, auxiliary⟩ := by
  have hhead : (head ++ (authentication ++ (auxiliary ++ rest))).take Header.size = head :=
    List.take_left' hlength
  have hwhole : Whole header (head ++ (authentication ++ (auxiliary ++ rest))) := by
    unfold Whole
    simp only [List.length_append]
    omega
  have hfirst : authenticationIn header (head ++ (authentication ++ (auxiliary ++ rest))) =
      authentication := by
    rw [authenticationIn, Bytes.slice, List.drop_left' hlength, hauthentication,
      Int.toNat_natCast, List.take_left]
  have hsecond : auxiliaryIn header (head ++ (authentication ++ (auxiliary ++ rest))) =
      auxiliary := by
    rw [auxiliaryIn, Bytes.slice, hauthentication, Int.toNat_natCast, ← List.drop_drop,
      List.drop_left' hlength, List.drop_left, hauxiliary, Int.toNat_natCast, List.take_left]
  rw [blocks_of_whole (hhead.symm ▸ hdecode) hwhole, hhead, hfirst, hsecond]

/-- A part of a block is the slice that begins behind the parts before it. -/
theorem sliceBlock_append {before part after : Bytes} {offset size : Int} {slice : String}
    (hoffset : offset = before.length) (hsize : size = part.length) :
    sliceBlock (before ++ (part ++ after)) offset size slice = .ok part := by
  have hlength : ¬((before ++ (part ++ after)).length : Int) < offset + size := by
    rw [List.length_append, List.length_append]
    omega
  rw [sliceBlock, if_neg hlength, hoffset, hsize, Int.toNat_natCast, Int.toNat_natCast,
    Bytes.slice, List.drop_left, List.take_left]

/-- A part of a block that is not empty is found. -/
theorem sliceBlock?_append {before part after : Bytes} {offset size : Int} {slice : String}
    (hoffset : offset = before.length) (hsize : size = part.length) (hpart : part.length ≠ 0) :
    sliceBlock? (before ++ (part ++ after)) offset size slice = .ok (some part) := by
  rw [sliceBlock?, if_neg (by omega), sliceBlock_append hoffset hsize]
  rfl

theorem le_blockSize (size : Nat) : size ≤ (blockSize size).toNat := by
  have hround := (@Number.roundUp_spec size 64 (by decide)).1
  unfold blockSize
  omega

theorem blockSize_toNat (size : Nat) : ((blockSize size).toNat : Int) = blockSize size := by
  have hround := (@Number.roundUp_spec size 64 (by decide)).1
  unfold blockSize
  omega

/-- Bytes that are filled up to a size have it if there is room for them. -/
theorem length_padTo_blockSize {data : Bytes} {size : Nat} (h : data.length ≤ size) :
    ((Bytes.padTo (blockSize size).toNat data).length : Int) = blockSize size := by
  have hle := le_blockSize size
  rw [Bytes.length_padTo, Nat.max_eq_left (by omega), blockSize_toNat]

/-- An aligned blob is the blob and zeros up to a multiple of the alignment, for which there is
room. -/
theorem align_eq_ok {room : Nat} {blob aligned : Bytes} {alignment : Int} (halign : 1 ≤ alignment)
    (h : align room blob alignment = .ok aligned) :
    aligned = Bytes.padTo aligned.length blob ∧ blob.length ≤ aligned.length ∧
      (aligned.length : Int) = Number.roundUp blob.length alignment ∧
      aligned.length ≤ min room Bytes.maxSize := by
  obtain ⟨size, hsize, hroom⟩ := Outcome.bind_eq_ok.1 h
  obtain ⟨⟨⟩, hrequire, hpad⟩ := Outcome.bind_eq_ok.1 hroom
  rw [Number.roundUp?, if_neg (by omega)] at hsize
  obtain rfl := Except.ok.inj hsize
  obtain rfl := Except.ok.inj hpad
  have hround := (@Number.roundUp_spec blob.length alignment (by omega)).1
  have hle : blob.length ≤ (Number.roundUp blob.length alignment).toNat := by omega
  rw [Bytes.length_padTo, Nat.max_eq_left hle]
  exact ⟨rfl, hle, by omega, Bytes.requireRoom_eq_ok.1 hrequire⟩

end Image

end VerifiedBoot
