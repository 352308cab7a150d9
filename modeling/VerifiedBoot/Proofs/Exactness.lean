import VerifiedBoot.Proofs.Header

/-!
# Headers and footers leave nothing to choose

A header has 256 bytes and a footer 64, and each of these bytes belongs to one field. So reading and
writing are inverse to each other: between the headers in range and the byte strings that are
acceptable as headers, and likewise for footers. `Header.onWire` and `Footer.onWire` say where the
fields lie, and the acceptable byte strings are described by these places alone.
-/

namespace VerifiedBoot

/-- Whether writing and reading are inverse to each other, between the values in range and the
acceptable byte strings of one size. -/
structure ExactCodec {α : Type} (size : Nat) (encode : α → Except Error Bytes)
    (decode : Bytes → Except Error α) (InRange : α → Prop) (Acceptable : Bytes → Prop) : Prop where
  encode_of_decode : ∀ data value, data.length = size → decode data = .ok value →
    encode value = .ok data ∧ InRange value
  decode_of_inRange : ∀ value, InRange value →
    ∃ data, encode value = .ok data ∧ data.length = size ∧ decode data = .ok value
  accepts_iff : ∀ data, data.length = size → ((∃ value, decode data = .ok value) ↔ Acceptable data)

/-- The unsigned number in `width` bytes at an offset. -/
def Bytes.word (data : Bytes) (offset width : Nat) : Nat :=
  toNat (slice data offset width)

/-- A codec that packs a row and unpacks it again is exact, if all that it checks beside is a
property of the value. -/
theorem ExactCodec.of_layout {α : Type} (layout : Layout) (Passes : α → Prop)
    {toRow : α → layout.Row} {ofRow : layout.Row → α} {encode : α → Except Error Bytes}
    {decode : Bytes → Except Error α} {InRange : α → Prop} {Acceptable : Bytes → Prop}
    (hrow : ∀ row, toRow (ofRow row) = row)
    (hencode : ∀ value, encode value = layout.pack (toRow value))
    (hdecode : ∀ data value, data.length = layout.size →
      (decode data = .ok value ↔ layout.unpack data = .ok (toRow value) ∧ Passes value))
    (hvalue : ∀ value, ofRow (toRow value) = value)
    (hrange : ∀ value, InRange value ↔ layout.Holds (toRow value) ∧ Passes value)
    (haccept : ∀ data, Acceptable data ↔ Passes (ofRow (layout.read data))) :
    ExactCodec layout.size encode decode InRange Acceptable where
  encode_of_decode data value hlength h := by
    obtain ⟨hunpack, hpasses⟩ := (hdecode data value hlength).1 h
    refine ⟨?_, (hrange value).2 ⟨Layout.holds_of_unpack hunpack, hpasses⟩⟩
    rw [hencode, ← (Layout.unpack_eq_ok.1 hunpack).2]
    exact Layout.pack_read hlength
  decode_of_inRange value hr := by
    obtain ⟨hholds, hpasses⟩ := (hrange value).1 hr
    obtain ⟨data, hdata⟩ := Layout.exists_pack hholds
    have hunpack := Layout.unpack_pack hdata hholds []
    rw [List.append_nil] at hunpack
    have hlength := Layout.length_pack hdata
    exact ⟨data, (hencode value).trans hdata, hlength,
      (hdecode data value hlength).2 ⟨hunpack, hpasses⟩⟩
  accepts_iff data hlength := by
    rw [haccept]
    constructor
    · rintro ⟨value, h⟩
      obtain ⟨hunpack, hpasses⟩ := (hdecode data value hlength).1 h
      rwa [(Layout.unpack_eq_ok.1 hunpack).2, hvalue]
    -- The value is the one that the row holds, whether or not it passes.
    · intro hpasses
      refine ⟨_, (hdecode data _ hlength).2 ⟨?_, hpasses⟩⟩
      rw [hrow]
      exact Layout.unpack_eq_ok.2 ⟨Nat.le_of_eq hlength.symm, rfl⟩

/-- Fields that lie at some offsets pass their checks exactly if none of these words has its sign
bit. -/
theorem checkExtents_onWire {extents : List (String × Int)} {offsets : List Nat} {data : Bytes}
    (h : extents.map (·.2) = offsets.map fun offset => (data.word offset 8 : Int)) :
    checkExtents extents = .ok () ↔ ∀ offset ∈ offsets, data.word offset 8 < 1 <<< 63 := by
  have hall (P : Int → Prop) :
      (∀ e ∈ extents, P e.2) ↔ ∀ offset ∈ offsets, P (data.word offset 8) := by
    have hmap := List.forall_mem_map (f := Prod.snd) (l := extents) (P := P)
    rw [show extents.map Prod.snd = _ from h, List.forall_mem_map] at hmap
    exact hmap.symm
  have hnonneg : ∀ e ∈ extents, 0 ≤ e.2 := (hall (0 ≤ ·)).2 fun _ _ => Int.natCast_nonneg _
  rw [checkExtents_eq_ok hnonneg, hall (· < (1 <<< 63 : Nat))]
  simp only [Int.ofNat_lt]

/-- The numbers up to 6 stand for algorithms. -/
theorem Algorithm.exists_ofCode_iff {code : Nat} :
    (∃ algorithm, ofCode code = .ok algorithm) ↔ code ≤ 6 := by
  constructor
  · rintro ⟨algorithm, h⟩
    unfold ofCode at h
    split at h
    · next found hfound =>
      have hcode := List.find?_some hfound
      rw [decide_eq_true_eq] at hcode
      have hle : found.code ≤ 6 := by
        rcases found with _ | ⟨_ | _, _ | _ | _⟩ <;> decide
      omega
    · cases h
  · intro h
    have hall : ∀ code ≤ 6, ∃ algorithm ∈ all, algorithm.code = code := by decide
    obtain ⟨algorithm, -, rfl⟩ := hall code h
    exact ⟨algorithm, ofCode_code algorithm⟩

namespace Header

/-- The header whose fields have the bytes at their places. -/
def onWire (data : Bytes) : Header where
  magic := data.take 4
  majorVersion := data.word 4 4
  minorVersion := data.word 8 4
  authenticationSize := data.word 12 8
  auxiliarySize := data.word 20 8
  algorithmType := data.word 28 4
  hashOffset := data.word 32 8
  hashSize := data.word 40 8
  signatureOffset := data.word 48 8
  signatureSize := data.word 56 8
  publicKeyOffset := data.word 64 8
  publicKeySize := data.word 72 8
  metadataOffset := data.word 80 8
  metadataSize := data.word 88 8
  descriptorsOffset := data.word 96 8
  descriptorsSize := data.word 104 8
  rollbackIndex := data.word 112 8
  flags := data.word 120 4
  rollbackIndexLocation := data.word 124 4
  releaseString := Bytes.slice data 128 48
  reserved := Bytes.slice data 176 80

/-- Where the twelve sizes and offsets lie. -/
def extentPlaces : List Nat :=
  [12, 20, 32, 40, 48, 56, 64, 72, 80, 88, 96, 104]

/-- Whether bytes are accepted as a header: they begin with its mark, the twelve sizes and offsets
are below their sign bits, and the algorithm is one of the seven. -/
structure Acceptable (data : Bytes) : Prop where
  magic : data.take 4 = signature
  extents : ∀ place ∈ extentPlaces, data.word place 8 < 1 <<< 63
  algorithm : data.word 28 4 ≤ 6

theorem toRow_ofRow (row : layout.Row) : (ofRow row).toRow = row :=
  rfl

/-- The fields are read where they lie. -/
theorem ofRow_read (data : Bytes) : ofRow (layout.read data) = onWire data := by
  simp only [layout, Layout.read, ofRow, List.drop_drop]
  rfl

/-- A header that was read has its fields where they lie. -/
theorem eq_onWire_of_decode {data : Bytes} {header : Header} (h : decode data = .ok header) :
    header = onWire data := by
  obtain ⟨-, hrow⟩ := Layout.unpack_eq_ok.1 (decode_eq_ok.1 h).1
  rw [← ofRow_read, hrow]
  rfl

/-- Headers in range and acceptable byte strings are the same thing. -/
theorem exactCodec : ExactCodec size encode decode InRange Acceptable := by
  refine ExactCodec.of_layout layout (fun header => header.magic = signature ∧
      checkExtents header.extents = .ok () ∧ ∃ algorithm, header.algorithm = .ok algorithm)
    toRow_ofRow (fun _ => rfl) (fun _ _ _ => decode_eq_ok) (fun _ => rfl) (fun header => ?_)
    (fun data => ?_)
  · constructor
    · intro h
      exact ⟨h.holds, h.magic, (checkExtents_eq_ok (extents_nonneg h.holds)).2 h.extents,
        h.algorithm⟩
    · rintro ⟨hholds, hmagic, hextents, halgorithm⟩
      exact ⟨hholds, hmagic, (checkExtents_eq_ok (extents_nonneg hholds)).1 hextents, halgorithm⟩
  · have hextents : checkExtents (onWire data).extents = .ok () ↔
        ∀ place ∈ extentPlaces, data.word place 8 < 1 <<< 63 := checkExtents_onWire rfl
    have halgorithm : (∃ algorithm, (onWire data).algorithm = .ok algorithm) ↔
        data.word 28 4 ≤ 6 := Algorithm.exists_ofCode_iff
    rw [ofRow_read, hextents, halgorithm]
    exact ⟨fun h => ⟨h.magic, h.extents, h.algorithm⟩, fun h => ⟨h.1, h.2.1, h.2.2⟩⟩

end Header

namespace Footer

/-- The footer whose fields have the bytes at their places. -/
def onWire (data : Bytes) : Footer where
  magic := data.take 4
  majorVersion := data.word 4 4
  minorVersion := data.word 8 4
  originalImageSize := data.word 12 8
  vbmetaOffset := data.word 20 8
  vbmetaSize := data.word 28 8
  reserved := Bytes.slice data 36 28

/-- Where the three sizes and offsets lie. -/
def extentPlaces : List Nat :=
  [12, 20, 28]

/-- Whether bytes are accepted as a footer: they begin with its mark, and the three sizes and
offsets are below their sign bits. -/
structure Acceptable (data : Bytes) : Prop where
  magic : data.take 4 = signature
  extents : ∀ place ∈ extentPlaces, data.word place 8 < 1 <<< 63

theorem toRow_ofRow (row : layout.Row) : (ofRow row).toRow = row :=
  rfl

/-- The fields are read where they lie. -/
theorem ofRow_read (data : Bytes) : ofRow (layout.read data) = onWire data := by
  simp only [layout, Layout.read, ofRow, List.drop_drop]
  rfl

/-- A footer that was read has its fields where they lie. -/
theorem eq_onWire_of_decode {data : Bytes} {footer : Footer} (h : decode data = .ok footer) :
    footer = onWire data := by
  obtain ⟨-, hrow⟩ := Layout.unpack_eq_ok.1 (decode_eq_ok.1 h).2.1
  rw [← ofRow_read, hrow]
  rfl

/-- Footers in range and acceptable byte strings are the same thing. -/
theorem exactCodec : ExactCodec size encode decode InRange Acceptable := by
  refine ExactCodec.of_layout layout (fun footer => footer.magic = signature ∧
      checkExtents footer.extents = .ok ()) toRow_ofRow (fun _ => rfl)
    (fun data footer hlength => ?_) (fun _ => rfl) (fun footer => ?_) (fun data => ?_)
  · rw [decode_eq_ok]
    exact ⟨fun h => h.2, fun h => ⟨hlength, h⟩⟩
  · constructor
    · intro h
      exact ⟨h.holds, h.magic, (checkExtents_eq_ok (extents_nonneg h.holds)).2 h.extents⟩
    · rintro ⟨hholds, hmagic, hextents⟩
      exact ⟨hholds, hmagic, (checkExtents_eq_ok (extents_nonneg hholds)).1 hextents⟩
  · have hextents : checkExtents (onWire data).extents = .ok () ↔
        ∀ place ∈ extentPlaces, data.word place 8 < 1 <<< 63 := checkExtents_onWire rfl
    rw [ofRow_read, hextents]
    exact ⟨fun h => ⟨h.magic, h.extents⟩, fun h => ⟨h.1, h.2⟩⟩

/-- A footer is not read from any other number of bytes. -/
theorem decode_of_length_ne {data : Bytes} (h : data.length ≠ size) :
    decode data = .error (.malformed .footerLength) :=
  if_pos h

end Footer

/-- **The codecs of headers and footers are exact.** What is read is written to the same bytes, and
every header or footer in range is read back; a byte string of the right length is accepted exactly
if mark, sizes and algorithm at their places are. All fields are read at their places, and a footer
is read from 64 bytes only. -/
theorem header_footer_exact :
    ExactCodec Header.size Header.encode Header.decode Header.InRange Header.Acceptable ∧
    ExactCodec Footer.size Footer.encode Footer.decode Footer.InRange Footer.Acceptable ∧
    (∀ data header, Header.decode data = .ok header → header = Header.onWire data) ∧
    (∀ data footer, Footer.decode data = .ok footer → footer = Footer.onWire data) ∧
    ∀ data : Bytes, data.length ≠ Footer.size →
      Footer.decode data = .error (.malformed .footerLength) :=
  ⟨Header.exactCodec, Footer.exactCodec, fun _ _ => Header.eq_onWire_of_decode,
    fun _ _ => Footer.eq_onWire_of_decode, fun _ => Footer.decode_of_length_ne⟩

/-- A mark with counting bytes behind it, so that no two fields have the same bytes. -/
def countingBytes (mark : Bytes) (size : Nat) : Bytes :=
  mark ++ (List.range' 4 (size - 4)).map UInt8.ofNat

/-- A header of counting bytes, whose algorithm is the last one. -/
def countingHeader : Bytes :=
  Bytes.overwrite (countingBytes Header.signature Header.size) 28 [0, 0, 0, 6]

/-- Counting bytes are accepted as a header and as a footer, and are written again. With the sign
bit of the last size, or with one number more for the algorithm, they are no header. -/
theorem header_footer_exact_countingBytes :
    (∃ header, Header.decode countingHeader = .ok header ∧ header.encode = .ok countingHeader ∧
      header.rollbackIndex = 0x7071727374757677) ∧
    (∃ footer, Footer.decode (countingBytes Footer.signature Footer.size) = .ok footer ∧
      footer.encode = .ok (countingBytes Footer.signature Footer.size) ∧
      footer.vbmetaSize = 0x1c1d1e1f20212223) ∧
    (¬∃ header, Header.decode (Bytes.overwrite countingHeader 104 [0x80]) = .ok header) ∧
    ¬∃ header, Header.decode (Bytes.overwrite countingHeader 31 [7]) = .ok header := by
  obtain ⟨hheader, hfooter, hheaderFields, hfooterFields, -⟩ := header_footer_exact
  have hlength : countingHeader.length = Header.size := by decide +kernel
  have hlength' : (countingBytes Footer.signature Footer.size).length = Footer.size := by
    decide +kernel
  obtain ⟨header, hdecode⟩ := (hheader.accepts_iff _ hlength).2
    ⟨by decide +kernel, by decide +kernel, by decide +kernel⟩
  obtain ⟨footer, hdecode'⟩ := (hfooter.accepts_iff _ hlength').2
    ⟨by decide +kernel, by decide +kernel⟩
  refine ⟨⟨header, hdecode, (hheader.encode_of_decode _ _ hlength hdecode).1, ?_⟩,
    ⟨footer, hdecode', (hfooter.encode_of_decode _ _ hlength' hdecode').1, ?_⟩, ?_, ?_⟩
  · rw [hheaderFields _ _ hdecode]
    decide +kernel
  · rw [hfooterFields _ _ hdecode']
    decide +kernel
  · rw [hheader.accepts_iff _ (by decide +kernel)]
    exact fun h => absurd (h.extents 104 (by decide)) (by decide +kernel)
  · rw [hheader.accepts_iff _ (by decide +kernel)]
    exact fun h => absurd h.algorithm (by decide +kernel)

end VerifiedBoot
