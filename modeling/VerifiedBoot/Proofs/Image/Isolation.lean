import VerifiedBoot.Proofs.Image.Vouching

/-!
# The authentication block changes nothing else

No signature covers the authentication block itself, so anybody may write to it. What is read from
the header and from the auxiliary block must not depend on it, and neither must the question whether
an image is read at all, nor the reason why it is not. The statements here are about two runs of the
reader, on data that is the same outside the authentication block. Where its digest and its
signature are the same as well, the two runs do not differ in anything.

* `Outcome.Agree`: two runs fail for the same reason, or have related values.
* `SameTrusted`, `SameStored`: data that is the same outside the authentication block, and in the
  two slices of it that the header declares.
* `agree_parse`: one step of the reader after the other agrees.
-/

namespace VerifiedBoot

namespace Outcome

variable {α β γ δ : Type}

/-- Two outcomes that fail for the same reason, or have values that are related. -/
inductive Agree (R : α → β → Prop) : Except Error α → Except Error β → Prop where
  | error (e : Error) : Agree R (.error e) (.error e)
  | ok {a : α} {b : β} (related : R a b) : Agree R (.ok a) (.ok b)

namespace Agree

theorem refl (x : Except Error α) : Agree Eq x x := by
  cases x with
  | error e => exact error e
  | ok a => exact ok rfl

/-- Sequences agree if their steps do. -/
theorem bind {R : α → β → Prop} {S : γ → δ → Prop} {x : Except Error α} {y : Except Error β}
    {f : α → Except Error γ} {g : β → Except Error δ} (h : Agree R x y)
    (hnext : ∀ a b, R a b → Agree S (f a) (g b)) : Agree S (x >>= f) (y >>= g) := by
  cases h with
  | error e => exact error e
  | ok related => exact hnext _ _ related

theorem bind_same {S : γ → δ → Prop} {x : Except Error α} {f : α → Except Error γ}
    {g : α → Except Error δ} (hnext : ∀ a, Agree S (f a) (g a)) :
    Agree S (x >>= f) (x >>= g) :=
  (refl x).bind fun a _ hab => hab ▸ hnext a

theorem cases {R : α → β → Prop} {x : Except Error α} {y : Except Error β} (h : Agree R x y) :
    (∃ e, x = .error e ∧ y = .error e) ∨ ∃ a b, x = .ok a ∧ y = .ok b ∧ R a b := by
  cases h with
  | error e => exact .inl ⟨e, rfl, rfl⟩
  | ok related => exact .inr ⟨_, _, rfl, rfl, related⟩

end Agree

end Outcome

namespace Image

/-! ### Data that is the same where it is trusted -/

/-- Whether two byte strings begin with the same header bytes and, if these are a header, are both
as long as it declares and have the same auxiliary block. -/
structure SameTrusted (x y : Bytes) : Prop where
  head : x.take Header.size = y.take Header.size
  whole : ∀ header, Header.decode (x.take Header.size) = .ok header →
    Whole header x ∧ Whole header y
  auxiliary : ∀ header, Header.decode (x.take Header.size) = .ok header →
    auxiliaryIn header x = auxiliaryIn header y

/-- Whether two byte strings have the same digest and the same signature, where the header declares
them. -/
structure SameStored (x y : Bytes) : Prop where
  digest : ∀ header, Header.decode (x.take Header.size) = .ok header →
    Bytes.slice (authenticationIn header x) header.hashOffset.toNat header.hashSize.toNat =
      Bytes.slice (authenticationIn header y) header.hashOffset.toNat header.hashSize.toNat
  signature : ∀ header, Header.decode (x.take Header.size) = .ok header →
    Bytes.slice (authenticationIn header x) header.signatureOffset.toNat
        header.signatureSize.toNat =
      Bytes.slice (authenticationIn header y) header.signatureOffset.toNat
        header.signatureSize.toNat

variable {suite : Suite} {data x y : Bytes} {header : Header}

/-- Data is compared by the one header that it begins with. -/
theorem sameTrusted_of_header (hheader : Header.decode (x.take Header.size) = .ok header)
    (hhead : x.take Header.size = y.take Header.size) (hwhole : Whole header x ∧ Whole header y)
    (hauxiliary : auxiliaryIn header x = auxiliaryIn header y) : SameTrusted x y where
  head := hhead
  whole _ hfound := Outcome.ok_unique hheader hfound ▸ hwhole
  auxiliary _ hfound := Outcome.ok_unique hheader hfound ▸ hauxiliary

/-! ### Blocks -/

/-- The authentication block that is read has the size that its header declares. -/
theorem length_authenticationIn (hheader : Header.decode (data.take Header.size) = .ok header)
    (hwhole : Whole header data) :
    ((authenticationIn header data).length : Int) = header.authenticationSize := by
  obtain ⟨hfirst, hsecond⟩ := Header.blocks_nonneg hheader
  unfold Whole at hwhole
  rw [authenticationIn, Bytes.length_slice]
  omega

/-- Data that does not begin with a header is turned down for the reason that its beginning
gives. -/
theorem blocks_of_decode_eq_error {e : Error} (hlength : Header.size ≤ data.length)
    (hheader : Header.decode (data.take Header.size) = .error e) : blocks data = .error e := by
  rw [blocks, @readBlocks_of_decode_eq_error ⟨data, 0⟩ e hlength hheader]
  rfl

/-- Byte strings with the same beginning are the same, or are both at least as long as a header. -/
theorem eq_or_size_le (h : x.take Header.size = y.take Header.size) :
    x = y ∨ Header.size ≤ x.length ∧ Header.size ≤ y.length := by
  have hlength := congrArg List.length h
  rw [List.length_take, List.length_take] at hlength
  by_cases hshort : x.length < Header.size
  · rw [List.take_of_length_le (by omega), List.take_of_length_le (by omega)] at h
    exact .inl h
  · exact .inr ⟨by omega, by omega⟩

/-! ### Runs of the reader -/

/-- Whether two headers with their blocks differ at most in the contents of the authentication
block. -/
structure Blocks.SameTrusted (a b : Blocks) : Prop where
  head : a.head = b.head
  header : a.header = b.header
  authentication : a.authentication.length = b.authentication.length
  auxiliary : a.auxiliary = b.auxiliary

/-- A slice of a block is found or not found by the size of the block alone. -/
theorem agree_sliceBlock? {a b : Bytes} (h : a.length = b.length) (offset size : Int)
    (slice : String) :
    Outcome.Agree (fun _ _ => True) (sliceBlock? a offset size slice)
      (sliceBlock? b offset size slice) := by
  unfold sliceBlock? sliceBlock
  rw [h]
  split
  · exact .ok trivial
  · split
    · exact .error _
    · exact .ok trivial

/-- Data that is the same where it is trusted is read as such blocks, or turned down for the same
reason. -/
theorem agree_blocks (h : SameTrusted x y) :
    Outcome.Agree Blocks.SameTrusted (blocks x) (blocks y) := by
  cases hheader : Header.decode (x.take Header.size) with
  | error e =>
    rcases eq_or_size_le h.head with rfl | ⟨hx, hy⟩
    · cases blocks x with
      | error e => exact .error e
      | ok b => exact .ok ⟨rfl, rfl, rfl, rfl⟩
    -- Neither is too short for a header, so the one header is turned down twice.
    · rw [blocks_of_decode_eq_error hx hheader,
        blocks_of_decode_eq_error hy (h.head ▸ hheader)]
      exact .error e
  | ok header =>
    obtain ⟨hx, hy⟩ := h.whole header hheader
    have hsize := (length_authenticationIn hheader hx).trans
      (length_authenticationIn (h.head ▸ hheader) hy).symm
    rw [blocks_of_whole hheader hx, blocks_of_whole (h.head ▸ hheader) hy]
    exact .ok ⟨h.head, rfl, Int.ofNat_inj.1 hsize, h.auxiliary _ hheader⟩

/-- Data that is the same where it is trusted is read as images with the same contents, or turned
down for the same reason. -/
theorem agree_parse (h : SameTrusted x y) :
    Outcome.Agree SameContents (parse suite x) (parse suite y) := by
  rw [parse_eq, parse_eq]
  refine (agree_blocks h).bind ?_
  rintro ⟨head, header, authentication, auxiliary⟩ ⟨_, _, _, _⟩ ⟨rfl, rfl, hlength, rfl⟩
  refine .bind_same fun algorithm => ?_
  refine .bind_same fun key => .bind_same fun metadata => ?_
  refine (agree_sliceBlock? hlength _ _ _).bind fun digest digest' _ => ?_
  refine (agree_sliceBlock? hlength _ _ _).bind fun signature signature' _ => ?_
  refine .bind_same fun slice => .bind_same fun descriptors => ?_
  exact .ok ⟨rfl, rfl, rfl, rfl⟩

theorem authenticationIn_of_blocks {b : Blocks} (h : blocks data = .ok b) :
    authenticationIn b.header data = b.authentication :=
  (congrArg Blocks.authentication (blocks_eq_ok.1 h).2.2).symm

theorem sliceBlock?_congr {a b : Bytes} {offset size : Int} (h : a.length = b.length)
    (hslice : Bytes.slice a offset.toNat size.toNat = Bytes.slice b offset.toNat size.toNat)
    (slice : String) : sliceBlock? a offset size slice = sliceBlock? b offset size slice := by
  simp only [sliceBlock?, sliceBlock, h, hslice]

/-- Data that is the same where it is trusted and where digest and signature are stored is read in
the same way. -/
theorem parse_congr (h : SameTrusted x y) (hstored : SameStored x y) :
    parse suite x = parse suite y := by
  rcases (agree_blocks h).cases with ⟨e, hx, hy⟩ | ⟨a, b, hx, hy, hsame⟩
  · rw [parse_eq, parse_eq, hx, hy]
  · obtain ⟨hheader, -⟩ := blocks_eq_ok.1 hx
    have hdigest := hstored.digest a.header hheader
    have hsignature := hstored.signature a.header hheader
    rw [authenticationIn_of_blocks hx, hsame.header, authenticationIn_of_blocks hy]
      at hdigest hsignature
    rw [parse_eq, parse_eq, hx, hy]
    obtain ⟨head, header, authentication, auxiliary⟩ := a
    obtain ⟨_, _, authentication', _⟩ := b
    obtain ⟨rfl, rfl, hlength, rfl⟩ := hsame
    simp only [bind, Except.bind, ofBlocks, embeddedKey, sliceBlock?_congr hlength hdigest,
      sliceBlock?_congr hlength hsignature]

/-- **The authentication block changes nothing else.** Data that is the same outside the
authentication block is turned down for the same reason, or read as images with the same header,
descriptors, key and metadata. If the digest and the signature that the header declares are the same
as well, the two images do not differ, whatever else there is in the block. -/
theorem parse_isolated {suite : Suite} {x y : Bytes} (h : SameTrusted x y) :
    ((∃ e, parse suite x = .error e ∧ parse suite y = .error e) ∨
      ∃ a b, parse suite x = .ok a ∧ parse suite y = .ok b ∧ a.SameContents b) ∧
    (SameStored x y → parse suite x = parse suite y) :=
  ⟨(agree_parse h).cases, parse_congr h⟩

/-- Blocks that differ at most in the authentication block are read from data that is the same where
it is trusted. -/
theorem sameTrusted_of_blocks {a b : Blocks} (ha : blocks x = .ok a) (hb : blocks y = .ok b)
    (hhead : a.head = b.head) (hauxiliary : a.auxiliary = b.auxiliary) : SameTrusted x y := by
  obtain ⟨hdecode, hwhole, hparts⟩ := blocks_eq_ok.1 ha
  obtain ⟨hdecode', hwhole', hparts'⟩ := blocks_eq_ok.1 hb
  have htake : x.take Header.size = y.take Header.size :=
    calc x.take Header.size = a.head := (congrArg Blocks.head hparts).symm
      _ = b.head := hhead
      _ = y.take Header.size := congrArg Blocks.head hparts'
  have hheader : a.header = b.header := Outcome.ok_unique (htake ▸ hdecode) hdecode'
  rw [← hheader] at hwhole' hparts'
  have hauxiliaryIn : auxiliaryIn a.header x = auxiliaryIn a.header y :=
    calc auxiliaryIn a.header x = a.auxiliary := (congrArg Blocks.auxiliary hparts).symm
      _ = b.auxiliary := hauxiliary
      _ = auxiliaryIn a.header y := congrArg Blocks.auxiliary hparts'
  exact sameTrusted_of_header hdecode htake ⟨hwhole, hwhole'⟩ hauxiliaryIn

section Weak

variable {digest signature fill digest' signature' fill' : Bytes} (hdigest : digest.length = 32)
  (hsignature : signature.length = 64) (hfill : fill.length = 32) (hfill' : fill'.length = 32)

include hdigest hsignature hfill hfill'

/-- The data of the key of 512 bits is the same where it is trusted, whatever else is in it. -/
theorem sameTrusted_weakData (hdigest' : digest'.length = 32)
    (hsignature' : signature'.length = 64) :
    SameTrusted (weakData digest signature fill) (weakData digest' signature' fill') := by
  have hblocks := blocks_weakData hdigest hsignature hfill []
  have hblocks' := blocks_weakData hdigest' hsignature' hfill' []
  rw [List.append_nil] at hblocks hblocks'
  exact sameTrusted_of_blocks hblocks hblocks' rfl rfl

/-- What fills its authentication block up is not among what is stored. -/
theorem sameStored_weakData :
    SameStored (weakData digest signature fill) (weakData digest signature fill') := by
  have hblocks := blocks_weakData hdigest hsignature hfill []
  have hblocks' := blocks_weakData hdigest hsignature hfill' []
  rw [List.append_nil] at hblocks hblocks'
  have hauthentication := authenticationIn_of_blocks hblocks
  have hauthentication' := authenticationIn_of_blocks hblocks'
  obtain ⟨hdecode, -⟩ := blocks_eq_ok.1 hblocks
  have hfirst (fill : Bytes) : Bytes.slice (digest ++ (signature ++ fill))
      weakHeader.hashOffset.toNat weakHeader.hashSize.toNat = digest :=
    List.take_left' hdigest
  have hsecond (fill : Bytes) : Bytes.slice (digest ++ (signature ++ fill))
      weakHeader.signatureOffset.toNat weakHeader.signatureSize.toNat = signature := by
    rw [Bytes.slice, show weakHeader.signatureOffset.toNat = digest.length from hdigest.symm,
      List.drop_left]
    exact List.take_left' hsignature
  refine ⟨fun header h => ?_, fun header h => ?_⟩
  · obtain rfl := Outcome.ok_unique hdecode h
    rw [hauthentication, hauthentication', hfirst, hfirst]
  · obtain rfl := Outcome.ok_unique hdecode h
    rw [hauthentication, hauthentication', hsecond, hsecond]

end Weak

/-- The data of the key of 512 bits with zeros for a signature. -/
def forgedBlob : Bytes :=
  weakData weakDigest (Bytes.zeros 64) (Bytes.zeros 32)

/-- The data of the key of 512 bits with other bytes behind its signature. -/
def filledBlob : Bytes :=
  weakData weakDigest weakSignature (List.replicate 32 1)

/-- Zeros are no signature of the key of 512 bits. -/
theorem parse_forgedBlob :
    parse .standard forgedBlob = .ok (weakImage .standard weakDigest (Bytes.zeros 64)) ∧
      (weakImage .standard weakDigest (Bytes.zeros 64)).signatureValid = false := by
  have hparse := @parse_weakData .standard _ _ _ length_weakSignature.1 (Bytes.length_zeros 64)
    (Bytes.length_zeros 32) []
  rw [List.append_nil] at hparse
  refine ⟨hparse, ?_⟩
  rw [signatureValid_weakImage, Bool.eq_false_iff, Ne, checkSignature_eq_true]
  rintro ⟨family, size, key, signature, -, -, -, hzeros, hverify⟩
  obtain rfl := Option.some.inj hzeros
  rw [Suite.standard, Suite.verify_ofDigests, Rsa.verifyDigest_zeros (by decide)] at hverify
  cases hverify

/-- A changed signature is read with the same contents and does not verify. A byte behind the
signature changes nothing. -/
theorem parse_isolated_weakBlob :
    (SameTrusted weakBlob forgedBlob ∧ SameTrusted weakBlob filledBlob ∧
      SameStored weakBlob filledBlob ∧ weakBlob ≠ filledBlob) ∧
    (∃ a b, parse .standard weakBlob = .ok a ∧ parse .standard forgedBlob = .ok b ∧
      a.SameContents b ∧ a.signatureValid = true ∧ b.signatureValid = false) ∧
    parse .standard weakBlob = parse .standard filledBlob := by
  obtain ⟨hdigest, hsignature⟩ := length_weakSignature
  have hzeros := Bytes.length_zeros 32
  have hones : (List.replicate 32 (1 : UInt8)).length = 32 := List.length_replicate
  have hforged : SameTrusted weakBlob forgedBlob :=
    sameTrusted_weakData hdigest hsignature hzeros hzeros hdigest (Bytes.length_zeros 64)
  have hfilled : SameTrusted weakBlob filledBlob :=
    sameTrusted_weakData hdigest hsignature hzeros hones hdigest hsignature
  have hstored : SameStored weakBlob filledBlob :=
    sameStored_weakData hdigest hsignature hzeros hones
  have hne : weakBlob ≠ filledBlob := by
    intro h
    have hblock := List.append_cancel_right (List.append_cancel_left h)
    have hfill := List.append_cancel_left (List.append_cancel_left hblock)
    exact absurd hfill (by decide)
  refine ⟨⟨hforged, hfilled, hstored, hne⟩, ?_, (parse_isolated hfilled).2 hstored⟩
  obtain ⟨ha, htrue⟩ := parse_weakBlob
  obtain ⟨hb, hfalse⟩ := parse_forgedBlob
  rcases (@parse_isolated .standard _ _ hforged).1 with ⟨e, hfailed, -⟩ | ⟨a, b, ha', hb', hsame⟩
  · cases ha.symm.trans hfailed
  · obtain rfl := Outcome.ok_unique ha ha'
    obtain rfl := Outcome.ok_unique hb hb'
    exact ⟨_, _, ha, hb, hsame, htrue, hfalse⟩

end Image

end VerifiedBoot
