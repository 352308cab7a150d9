import VerifiedBoot.Proofs.Descriptor.RoundTrip

/-!
# Which descriptors have bytes, and how many

A descriptor in range is written, and the number of its bytes is known beforehand. There is one
exception: the body of a record without a layout of its own is kept as it is, and it cannot be
filled up to whole words.
-/

namespace VerifiedBoot

/-- The bytes of an encoded key. -/
def PublicKey.span (key : PublicKey) : Nat :=
  8 + 2 * (key.bits / 8)

namespace Descriptor

/-- The bytes of a record behind its preamble, before they are filled up. -/
def bodySize : Descriptor → Nat
  | property d => propertyLayout.size + (d.key.length + d.value.length + 2)
  | hashtree d => hashtreeLayout.size +
    ((Bytes.ofString d.partitionName).length + d.salt.length + d.rootDigest.length)
  | hash d => hashLayout.size +
    ((Bytes.ofString d.partitionName).length + d.salt.length + d.digest.length)
  | cmdline d => cmdlineLayout.size + (Bytes.ofString d.kernelCmdline).length
  | chain d => chainLayout.size +
    ((Bytes.ofString d.partitionName).length + (d.publicKey.map (·.span)).getD 0)
  | unknown d => d.data.length

/-- The bytes of a record. -/
def span (d : Descriptor) : Nat :=
  16 + (Number.roundUp d.bodySize 8).toNat

/-- The bytes of all records, one after the other. -/
def spanAll : List Descriptor → Nat
  | [] => 0
  | d :: rest => span d + spanAll rest

/-- Whether a record without a layout of its own has a body that is not whole words. -/
def Unaligned : Descriptor → Prop
  | unknown d => d.data.length % 8 ≠ 0
  | _ => False

/-- A record is written from a row and the rest, if the layout has room for the row and the parts
are short, and filled up to whole words. -/
theorem exists_encodeRecord {tag : Nat} {layout : Layout} {row : layout.Row} {rest : Bytes}
    (htag : tag < 1 <<< 64) (hrow : layout.Holds (layout.fitted row))
    (hsize : Number.roundUp (layout.size + rest.length : Nat) 8 < (1 <<< 63 : Nat)) :
    ∃ fixed blob, layout.pack row = .ok fixed ∧ encodeRecord tag fixed rest = .ok blob ∧
      blob.length = 16 + (Number.roundUp (layout.size + rest.length : Nat) 8).toNat := by
  obtain ⟨fixed, hfixed⟩ := Layout.exists_pack_of_fitted hrow
  have hlength := Layout.length_pack hfixed
  rw [← hlength] at hsize ⊢
  have hround := (@Number.roundUp_spec (fixed.length + rest.length : Nat) 8 (by decide)).1
  have hfollowing : (((Number.roundUp (fixed.length + rest.length : Nat) 8).toNat : Nat) : Int) <
      (1 <<< 64 : Nat) := by omega
  have hholds : preamble.Holds ((tag : Int),
      ((Number.roundUp (fixed.length + rest.length : Nat) 8).toNat : Int), ()) :=
    ⟨⟨Int.natCast_nonneg _, Int.ofNat_lt.2 htag⟩, ⟨Int.natCast_nonneg _, hfollowing⟩, trivial⟩
  obtain ⟨head, hhead⟩ := Layout.exists_pack hholds
  refine ⟨fixed, _, hfixed, Outcome.bind_eq_ok.2 ⟨head, hhead, rfl⟩, ?_⟩
  rw [List.length_append, Layout.length_pack hhead, Bytes.length_padTo, List.length_append,
    Nat.max_eq_left (by omega)]
  rfl

/-- The name of a hash algorithm in range has bytes. -/
theorem encodeHashName_of_inRange {name : String} (h : HashNameInRange name) :
    encodeHashName name = .ok (Bytes.ofString name) :=
  if_neg (Nat.not_lt.2 h.1)

theorem fitsIn_of_shortLength {data : Bytes} (h : ShortLength data) :
    FitsIn 32 (data.length : Int) := by
  unfold ShortLength at h
  exact ⟨Int.natCast_nonneg _, by omega⟩

/-- A property in range has bytes. -/
theorem exists_encodeProperty {d : PropertyDescriptor} (hr : d.InRange) :
    ∃ blob, encodeProperty d = .ok blob ∧ blob.length = (property d).span := by
  have hround := (@Number.roundUp_spec (16 + (d.key.length + d.value.length + 2) : Nat) 8
    (by decide)).1
  have hfollowing := hr.following
  have hkey : (d.key.length : Int) < (1 <<< 64 : Nat) := by omega
  have hvalue : (d.value.length : Int) < (1 <<< 64 : Nat) := by omega
  have hrow : propertyLayout.Holds (propertyLayout.fitted
      ((d.key.length : Int), (d.value.length : Int), ())) :=
    ⟨⟨Int.natCast_nonneg _, hkey⟩, ⟨Int.natCast_nonneg _, hvalue⟩, trivial⟩
  have hrest : (d.key ++ [0] ++ d.value ++ [0]).length = d.key.length + d.value.length + 2 := by
    simp only [List.length_append, List.length_singleton]
    omega
  have hsize : Number.roundUp (propertyLayout.size +
      (d.key ++ [0] ++ d.value ++ [0]).length : Nat) 8 < (1 <<< 63 : Nat) := by
    rw [hrest]
    exact hfollowing
  obtain ⟨fixed, blob, hfixed, hblob, hspan⟩ :=
    exists_encodeRecord (show 0 < 1 <<< 64 by decide) hrow hsize
  rw [hrest] at hspan
  exact ⟨blob, Outcome.bind_eq_ok.2 ⟨fixed, hfixed, hblob⟩, hspan⟩

/-- A hash tree in range has bytes. -/
theorem exists_encodeHashtree {d : HashtreeDescriptor} (hr : d.InRange) :
    ∃ blob, encodeHashtree d = .ok blob ∧ blob.length = (hashtree d).span := by
  have hrow : hashtreeLayout.Holds (hashtreeLayout.fitted (d.dmVerityVersion, d.imageSize,
      d.treeOffset, d.treeSize, d.dataBlockSize, d.hashBlockSize, d.fecNumRoots, d.fecOffset,
      d.fecSize, Bytes.ofString d.hashAlgorithm, ((Bytes.ofString d.partitionName).length : Int),
      (d.salt.length : Int), (d.rootDigest.length : Int), d.flags, d.reserved, ())) :=
    ⟨hr.dmVerityVersion, hr.imageSize.mono (by decide), hr.treeOffset.mono (by decide),
      hr.treeSize.mono (by decide), hr.dataBlockSize, hr.hashBlockSize, hr.fecNumRoots,
      hr.fecOffset.mono (by decide), hr.fecSize.mono (by decide), Bytes.length_fit 32 _,
      fitsIn_of_shortLength hr.partitionName, fitsIn_of_shortLength hr.salt,
      fitsIn_of_shortLength hr.rootDigest, hr.flags, Bytes.length_fit 60 _, trivial⟩
  have hsize := @digestParts_following_lt hashtreeLayout.size _ _ _ hr.partitionName hr.salt hr.rootDigest
    (by decide)
  obtain ⟨fixed, blob, hfixed, hblob, hspan⟩ :=
    exists_encodeRecord (show 1 < 1 <<< 64 by decide) hrow hsize
  rw [List.length_append, List.length_append] at hspan
  exact ⟨blob, Outcome.bind_eq_ok.2 ⟨_, encodeHashName_of_inRange hr.hashAlgorithm,
    Outcome.bind_eq_ok.2 ⟨fixed, hfixed, hblob⟩⟩, hspan⟩

/-- A hash in range has bytes. -/
theorem exists_encodeHash {d : HashDescriptor} (hr : d.InRange) :
    ∃ blob, encodeHash d = .ok blob ∧ blob.length = (hash d).span := by
  have hrow : hashLayout.Holds (hashLayout.fitted (d.imageSize, Bytes.ofString d.hashAlgorithm,
      ((Bytes.ofString d.partitionName).length : Int), (d.salt.length : Int),
      (d.digest.length : Int), d.flags, d.reserved, ())) :=
    ⟨hr.imageSize.mono (by decide), Bytes.length_fit 32 _, fitsIn_of_shortLength hr.partitionName,
      fitsIn_of_shortLength hr.salt, fitsIn_of_shortLength hr.digest, hr.flags,
      Bytes.length_fit 60 _, trivial⟩
  have hsize := @digestParts_following_lt hashLayout.size _ _ _ hr.partitionName hr.salt hr.digest
    (by decide)
  obtain ⟨fixed, blob, hfixed, hblob, hspan⟩ :=
    exists_encodeRecord (show 2 < 1 <<< 64 by decide) hrow hsize
  rw [List.length_append, List.length_append] at hspan
  exact ⟨blob, Outcome.bind_eq_ok.2 ⟨_, encodeHashName_of_inRange hr.hashAlgorithm,
    Outcome.bind_eq_ok.2 ⟨fixed, hfixed, hblob⟩⟩, hspan⟩

/-- A kernel command line in range has bytes. -/
theorem exists_encodeCmdline {d : CmdlineDescriptor} (hr : d.InRange) :
    ∃ blob, encodeCmdline d = .ok blob ∧ blob.length = (cmdline d).span := by
  have hrow : cmdlineLayout.Holds (cmdlineLayout.fitted
      (d.flags, ((Bytes.ofString d.kernelCmdline).length : Int), ())) :=
    ⟨hr.flags, fitsIn_of_shortLength hr.kernelCmdline, trivial⟩
  have hsize : Number.roundUp (cmdlineLayout.size +
      (Bytes.ofString d.kernelCmdline).length : Nat) 8 < (1 <<< 63 : Nat) := by
    have hshort := hr.kernelCmdline
    unfold ShortLength at hshort
    refine following_lt ?_
    rw [show cmdlineLayout.size = 8 from rfl]
    omega
  obtain ⟨fixed, blob, hfixed, hblob, hspan⟩ :=
    exists_encodeRecord (show 3 < 1 <<< 64 by decide) hrow hsize
  exact ⟨blob, Outcome.bind_eq_ok.2 ⟨fixed, hfixed, hblob⟩, hspan⟩

/-- The key of a chain descriptor has bytes, none if there is no key. -/
theorem exists_encodeKey {key : Option PublicKey} (hr : ∀ k, key = some k → k.InRange) :
    ∃ data, encodeKey key = .ok data ∧ data.length = (key.map (·.span)).getD 0 := by
  cases key with
  | none => exact ⟨[], rfl, rfl⟩
  | some key =>
    obtain ⟨data, hdata⟩ := PublicKey.exists_encode (hr key rfl)
    exact ⟨data, hdata, PublicKey.length_of_encode hdata⟩

/-- A chained partition in range has bytes. -/
theorem exists_encodeChain {d : ChainDescriptor} (hr : d.InRange) :
    ∃ blob, encodeChain d = .ok blob ∧ blob.length = (chain d).span := by
  obtain ⟨key, hkey, hkeySize⟩ := exists_encodeKey hr.publicKey
  have hshort := shortLength_of_encodeKey hkey hr.publicKey
  have hrow : chainLayout.Holds (chainLayout.fitted (d.rollbackIndexLocation,
      ((Bytes.ofString d.partitionName).length : Int), (key.length : Int), d.flags, d.reserved,
      ())) :=
    ⟨hr.rollbackIndexLocation, fitsIn_of_shortLength hr.partitionName, fitsIn_of_shortLength hshort,
      hr.flags, Bytes.length_fit 60 _, trivial⟩
  have hrest : (Bytes.ofString d.partitionName ++ key).length =
      (Bytes.ofString d.partitionName).length + (d.publicKey.map (·.span)).getD 0 := by
    rw [List.length_append, hkeySize]
  have hsize : Number.roundUp (chainLayout.size +
      (Bytes.ofString d.partitionName ++ key).length : Nat) 8 < (1 <<< 63 : Nat) := by
    have hname := hr.partitionName
    unfold ShortLength at hname hshort
    refine following_lt ?_
    rw [List.length_append, show chainLayout.size = 76 from rfl]
    omega
  obtain ⟨fixed, blob, hfixed, hblob, hspan⟩ :=
    exists_encodeRecord (show 4 < 1 <<< 64 by decide) hrow hsize
  rw [hrest] at hspan
  exact ⟨blob, Outcome.bind_eq_ok.2 ⟨key, hkey, Outcome.bind_eq_ok.2 ⟨fixed, hfixed, hblob⟩⟩,
    hspan⟩

/-- A record without a layout of its own has bytes if its body is whole words. -/
theorem exists_encodeUnknown {d : UnknownDescriptor} (hr : d.InRange)
    (haligned : d.data.length % 8 = 0) :
    ∃ blob, encodeUnknown d = .ok blob ∧ blob.length = (unknown d).span := by
  obtain ⟨tag, htag, -, hfits⟩ := hr.tag
  have hdata := hr.data
  have hrow : preamble.Holds (tag, (d.data.length : Int), ()) :=
    ⟨hfits, ⟨Int.natCast_nonneg _, by omega⟩, trivial⟩
  obtain ⟨head, hhead⟩ := Layout.exists_pack hrow
  have hround : Number.roundUp (d.data.length : Nat) (8 : Nat) = d.data.length :=
    Number.roundUp_of_dvd (Nat.dvd_of_mod_eq_zero haligned)
  refine ⟨head ++ d.data, ?_, ?_⟩
  · unfold encodeUnknown
    rw [if_neg (not_not.2 haligned), htag]
    exact Outcome.bind_eq_ok.2 ⟨head, hhead, rfl⟩
  · rw [List.length_append, Layout.length_pack hhead]
    unfold span
    rw [show (unknown d).bodySize = d.data.length from rfl,
      show Number.roundUp (d.data.length : Nat) 8 = d.data.length from hround, Int.toNat_natCast]
    rfl

/-- **A descriptor in range has bytes**, as many as its parts take and the zeros that fill it up,
unless it is one whose body is kept as it is and is not whole words. -/
theorem exists_encode {d : Descriptor} (hr : d.InRange) (haligned : ¬d.Unaligned) :
    ∃ blob, encode d = .ok blob ∧ blob.length = d.span := by
  cases d with
  | property d => exact exists_encodeProperty hr
  | hashtree d => exact exists_encodeHashtree hr
  | hash d => exact exists_encodeHash hr
  | cmdline d => exact exists_encodeCmdline hr
  | chain d => exact exists_encodeChain hr
  | unknown d => exact exists_encodeUnknown hr (not_not.1 haligned)

/-- A body that is not whole words is turned down. -/
theorem encode_of_unaligned {d : Descriptor} (h : d.Unaligned) :
    ∃ size, encode d = .error (.refused (.unalignedBody size)) := by
  cases d with
  | unknown d => exact ⟨d.data.length, if_pos h⟩
  | property _ | hashtree _ | hash _ | cmdline _ | chain _ => cases h

variable {ds : List Descriptor}

/-- Descriptors in range have bytes, one after the other. -/
theorem exists_encodeAll (hr : ∀ d ∈ ds, d.InRange) (haligned : ∀ d ∈ ds, ¬d.Unaligned) :
    ∃ blob, encodeAll ds = .ok blob ∧ blob.length = spanAll ds := by
  induction ds with
  | nil => exact ⟨[], rfl, rfl⟩
  | cons d rest ih =>
    rw [List.forall_mem_cons] at hr haligned
    obtain ⟨head, hhead, hspan⟩ := exists_encode hr.1 haligned.1
    obtain ⟨tail, htail, hspans⟩ := ih hr.2 haligned.2
    refine ⟨head ++ tail, Outcome.bind_eq_ok.2 ⟨head, hhead, Outcome.bind_eq_ok.2
      ⟨tail, htail, rfl⟩⟩, ?_⟩
    rw [List.length_append, hspan, hspans]
    rfl

/-- One body that is not whole words is enough for there to be no bytes. -/
theorem encodeAll_of_unaligned {d : Descriptor} (hd : d ∈ ds) (h : d.Unaligned) :
    ∃ e, encodeAll ds = .error e := by
  induction ds with
  | nil => cases hd
  | cons first rest ih =>
    cases hfirst : encode first with
    | error e => exact ⟨e, Outcome.bind_eq_error.2 (.inl hfirst)⟩
    | ok head =>
      rcases List.mem_cons.1 hd with rfl | hd
      · obtain ⟨size, herror⟩ := encode_of_unaligned h
        cases hfirst.symm.trans herror
      · obtain ⟨e, he⟩ := ih hd
        exact ⟨e, Outcome.bind_eq_error.2 (.inr ⟨head, hfirst, Outcome.bind_eq_error.2 (.inl he)⟩)⟩

end Descriptor

end VerifiedBoot
