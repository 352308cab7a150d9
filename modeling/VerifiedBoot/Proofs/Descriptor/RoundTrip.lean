import VerifiedBoot.Proofs.Descriptor.Record
import VerifiedBoot.Proofs.PublicKey

/-!
# Descriptors are read back

Each kind of record is read from the parts that it was written from, so a descriptor in range is
read back from its bytes, and each descriptor that was read is in range. Since a record says where
it ends, a list of records is read back as well, and fewer bytes than a preamble behind them do no
harm.
-/

namespace VerifiedBoot

namespace Descriptor

/-! ### Hashes -/

/-- What a hash is read from. -/
theorem decodeHash_eq_ok {data : Bytes} {d : HashDescriptor} :
    decodeHash data = .ok d ↔ ∃ tag body algorithm tail, openRecord .hash data = .ok (tag, body) ∧
      hashLayout.unpack body = .ok (d.imageSize, algorithm,
        ((Bytes.ofString d.partitionName).length : Int), (d.salt.length : Int),
        (d.digest.length : Int), d.flags, d.reserved, ()) ∧
      d.imageSize < (1 <<< 63 : Nat) ∧ ShortLength (Bytes.ofString d.partitionName) ∧
      ShortLength d.salt ∧ ShortLength d.digest ∧ decodeHashName algorithm = .ok d.hashAlgorithm ∧
      body.drop hashLayout.size =
        Bytes.ofString d.partitionName ++ (d.salt ++ (d.digest ++ tail)) := by
  rw [decodeHash_eq_digestParts]
  constructor
  · intro h
    obtain ⟨⟨tag, body⟩, hopen, h₁⟩ := Outcome.bind_eq_ok.1 h
    obtain ⟨⟨(imageSize : Int), algorithm, (nameSize : Int), (saltSize : Int), (digestSize : Int),
      (flags : Int), reserved, ⟨⟩⟩, hrow, h₂⟩ := Outcome.bind_eq_ok.1 h₁
    obtain ⟨himage, -, hname, hsalt, hdigest, -⟩ := Layout.holds_of_unpack hrow
    obtain ⟨⟨⟩, hextents, h₃⟩ := Outcome.bind_eq_ok.1 h₂
    obtain ⟨hashAlgorithm, partitionName, salt, digest, tail, rfl, rfl, rfl, hnameShort, hsaltShort,
      hdigestShort, halgorithm, hdrop, h₄⟩ :=
      (digestParts_eq_ok hname.1 hsalt.1 hdigest.1).1 h₃
    obtain rfl := Except.ok.inj h₄
    refine ⟨tag, body, algorithm, tail, hopen, hrow, ?_, hnameShort, hsaltShort, hdigestShort,
      halgorithm, hdrop⟩
    exact (checkExtents_eq_ok (by simpa using himage.1)).1 hextents _ List.mem_cons_self
  · rintro ⟨tag, body, algorithm, tail, hopen, hrow, himage, hname, hsalt, hdigest, halgorithm,
      hdrop⟩
    have hholds := Layout.holds_of_unpack hrow
    -- Back, each step is one that the reader takes, in its order.
    have hextents : checkExtents [("image_size", d.imageSize)] = .ok () :=
      (checkExtents_eq_ok (by simpa using hholds.1.1)).2 (by simpa using himage)
    refine Outcome.bind_eq_ok.2 ⟨_, hopen, Outcome.bind_eq_ok.2 ⟨_, hrow, ?_⟩⟩
    refine Outcome.bind_eq_ok.2 ⟨_, hextents, ?_⟩
    exact (digestParts_eq_ok (Int.natCast_nonneg _) (Int.natCast_nonneg _)
      (Int.natCast_nonneg _)).2 ⟨_, _, _, _, tail, rfl, rfl, rfl, hname, hsalt, hdigest, halgorithm,
        hdrop, rfl⟩

/-- A hash that was read is in range. -/
theorem inRange_of_decodeHash {data : Bytes} {d : HashDescriptor} (h : decodeHash data = .ok d) :
    d.InRange := by
  obtain ⟨tag, body, algorithm, tail, -, hrow, himage, hname, hsalt, hdigest, halgorithm, -⟩ :=
    decodeHash_eq_ok.1 h
  obtain ⟨hsize, hfield, -, -, -, hflags, hreserved, -⟩ := Layout.holds_of_unpack hrow
  exact {
    imageSize := ⟨hsize.1, himage⟩
    hashAlgorithm := hashNameInRange_of_decode hfield halgorithm
    partitionName := hname
    salt := hsalt
    digest := hdigest
    flags := hflags
    reserved := hreserved }

/-- A hash is read back. -/
theorem decodeHash_encodeHash {d : HashDescriptor} {blob : Bytes}
    (h : encodeHash d = .ok blob) (hr : d.InRange) :
    decodeHash blob = .ok d ∧ ∃ body, IsRecord 2 body blob ∧ body.length < 1 <<< 63 := by
  obtain ⟨algorithm, halgorithm, hparts⟩ := Outcome.bind_eq_ok.1 h
  obtain ⟨fixed, hfixed, hwritten⟩ := Outcome.bind_eq_ok.1 hparts
  obtain ⟨rfl, -⟩ := encodeHashName_eq_ok halgorithm
  have hsize := @digestParts_following_lt hashLayout.size _ _ _ hr.partitionName hr.salt hr.digest
    (by decide)
  obtain ⟨body, padding, hopen, hrow, hdrop, hrecord, hlt⟩ :=
    @open_encodeRecord .hash _ _ _ _ _ _ hfixed hwritten rfl rfl hsize
  -- The row is read back as it was fitted to its fields: the name of the algorithm is filled up
  -- with zeros, which is undone by reading it.
  simp only [hashLayout, Layout.fitted, Field.fitted, Bytes.fit_of_length hr.reserved] at hrow
  rw [List.append_assoc, List.append_assoc] at hdrop
  exact ⟨decodeHash_eq_ok.2 ⟨_, body, _, padding, hopen, hrow, hr.imageSize.2, hr.partitionName,
    hr.salt, hr.digest, decodeHashName_fit hr.hashAlgorithm, hdrop⟩, body, hrecord, hlt⟩

/-! ### Hash trees -/

/-- The sizes and offsets of a hash tree, with their names in messages. -/
private def treeExtents (d : HashtreeDescriptor) : List (String × Int) := [
  ("image_size", d.imageSize), ("tree_offset", d.treeOffset), ("tree_size", d.treeSize),
  ("fec_offset", d.fecOffset), ("fec_size", d.fecSize)]

/-- The fixed part of a hash tree. -/
private def treeRow (d : HashtreeDescriptor) (algorithm : Bytes) : hashtreeLayout.Row :=
  (d.dmVerityVersion, d.imageSize, d.treeOffset, d.treeSize, d.dataBlockSize, d.hashBlockSize,
    d.fecNumRoots, d.fecOffset, d.fecSize, algorithm,
    ((Bytes.ofString d.partitionName).length : Int), (d.salt.length : Int),
    (d.rootDigest.length : Int), d.flags, d.reserved, ())

private theorem treeExtents_nonneg {d : HashtreeDescriptor} {algorithm : Bytes}
    (h : hashtreeLayout.Holds (treeRow d algorithm)) : ∀ e ∈ treeExtents d, 0 ≤ e.2 := by
  obtain ⟨-, himage, hoffset, hsize, -, -, -, hfecOffset, hfecSize, -⟩ := h
  simp only [treeExtents, List.forall_mem_cons]
  exact ⟨himage.1, hoffset.1, hsize.1, hfecOffset.1, hfecSize.1, by simp⟩

/-- What a hash tree is read from. -/
theorem decodeHashtree_eq_ok {data : Bytes} {d : HashtreeDescriptor} :
    decodeHashtree data = .ok d ↔ ∃ tag body algorithm tail,
      openRecord .hashtree data = .ok (tag, body) ∧
      hashtreeLayout.unpack body = .ok (treeRow d algorithm) ∧
      (∀ e ∈ treeExtents d, e.2 < (1 <<< 63 : Nat)) ∧ ShortLength (Bytes.ofString d.partitionName) ∧
      ShortLength d.salt ∧ ShortLength d.rootDigest ∧
      decodeHashName algorithm = .ok d.hashAlgorithm ∧
      body.drop hashtreeLayout.size =
        Bytes.ofString d.partitionName ++ (d.salt ++ (d.rootDigest ++ tail)) := by
  rw [decodeHashtree_eq_digestParts]
  constructor
  · intro h
    obtain ⟨⟨tag, body⟩, hopen, h₁⟩ := Outcome.bind_eq_ok.1 h
    obtain ⟨⟨(version : Int), (imageSize : Int), (treeOffset : Int), (treeSize : Int),
      (dataBlock : Int), (hashBlock : Int), (fecRoots : Int), (fecOffset : Int), (fecSize : Int),
      algorithm, (nameSize : Int), (saltSize : Int), (digestSize : Int), (flags : Int), reserved,
      ⟨⟩⟩, hrow, h₂⟩ := Outcome.bind_eq_ok.1 h₁
    have hholds := Layout.holds_of_unpack hrow
    obtain ⟨-, -, -, -, -, -, -, -, -, -, hname, hsalt, hdigest, -⟩ := hholds
    obtain ⟨⟨⟩, hextents, h₃⟩ := Outcome.bind_eq_ok.1 h₂
    obtain ⟨hashAlgorithm, partitionName, salt, digest, tail, rfl, rfl, rfl, hnameShort, hsaltShort,
      hdigestShort, halgorithm, hdrop, h₄⟩ :=
      (digestParts_eq_ok hname.1 hsalt.1 hdigest.1).1 h₃
    obtain rfl := Except.ok.inj h₄
    refine ⟨tag, body, algorithm, tail, hopen, hrow, ?_, hnameShort, hsaltShort, hdigestShort,
      halgorithm, hdrop⟩
    exact (checkExtents_eq_ok (treeExtents_nonneg (Layout.holds_of_unpack hrow))).1 hextents
  · rintro ⟨tag, body, algorithm, tail, hopen, hrow, hextents, hname, hsalt, hdigest, halgorithm,
      hdrop⟩
    have hnonneg := treeExtents_nonneg (Layout.holds_of_unpack hrow)
    refine Outcome.bind_eq_ok.2 ⟨_, hopen, Outcome.bind_eq_ok.2 ⟨_, hrow, ?_⟩⟩
    refine Outcome.bind_eq_ok.2 ⟨_, (checkExtents_eq_ok hnonneg).2 hextents, ?_⟩
    exact (digestParts_eq_ok (Int.natCast_nonneg _) (Int.natCast_nonneg _)
      (Int.natCast_nonneg _)).2 ⟨_, _, _, _, tail, rfl, rfl, rfl, hname, hsalt, hdigest, halgorithm,
        hdrop, rfl⟩

/-- A hash tree that was read is in range. -/
theorem inRange_of_decodeHashtree {data : Bytes} {d : HashtreeDescriptor}
    (h : decodeHashtree data = .ok d) : d.InRange := by
  obtain ⟨tag, body, algorithm, tail, -, hrow, hextents, hname, hsalt, hdigest, halgorithm, -⟩ :=
    decodeHashtree_eq_ok.1 h
  obtain ⟨hversion, himage, hoffset, hsize, hdata, hblock, hroots, hfecOffset, hfecSize, hfield, -,
    -, -, hflags, hreserved, -⟩ := Layout.holds_of_unpack hrow
  simp only [treeExtents, List.forall_mem_cons] at hextents
  exact {
    dmVerityVersion := hversion
    imageSize := ⟨himage.1, hextents.1⟩
    treeOffset := ⟨hoffset.1, hextents.2.1⟩
    treeSize := ⟨hsize.1, hextents.2.2.1⟩
    dataBlockSize := hdata
    hashBlockSize := hblock
    fecNumRoots := hroots
    fecOffset := ⟨hfecOffset.1, hextents.2.2.2.1⟩
    fecSize := ⟨hfecSize.1, hextents.2.2.2.2.1⟩
    hashAlgorithm := hashNameInRange_of_decode hfield halgorithm
    partitionName := hname
    salt := hsalt
    rootDigest := hdigest
    flags := hflags
    reserved := hreserved }

/-- A hash tree is read back. -/
theorem decodeHashtree_encodeHashtree {d : HashtreeDescriptor} {blob : Bytes}
    (h : encodeHashtree d = .ok blob) (hr : d.InRange) :
    decodeHashtree blob = .ok d ∧ ∃ body, IsRecord 1 body blob ∧ body.length < 1 <<< 63 := by
  obtain ⟨algorithm, halgorithm, hparts⟩ := Outcome.bind_eq_ok.1 h
  obtain ⟨fixed, hfixed, hwritten⟩ := Outcome.bind_eq_ok.1 hparts
  obtain ⟨rfl, -⟩ := encodeHashName_eq_ok halgorithm
  have hsize := @digestParts_following_lt hashtreeLayout.size _ _ _ hr.partitionName hr.salt hr.rootDigest
    (by decide)
  obtain ⟨body, padding, hopen, hrow, hdrop, hrecord, hlt⟩ :=
    @open_encodeRecord .hashtree _ _ _ _ _ _ hfixed hwritten rfl rfl hsize
  simp only [hashtreeLayout, Layout.fitted, Field.fitted, Bytes.fit_of_length hr.reserved] at hrow
  rw [List.append_assoc, List.append_assoc] at hdrop
  have hextents : ∀ e ∈ treeExtents d, e.2 < (1 <<< 63 : Nat) := by
    simp only [treeExtents, List.forall_mem_cons]
    exact ⟨hr.imageSize.2, hr.treeOffset.2, hr.treeSize.2, hr.fecOffset.2, hr.fecSize.2, by simp⟩
  exact ⟨decodeHashtree_eq_ok.2 ⟨_, body, _, padding, hopen, hrow, hextents, hr.partitionName,
    hr.salt, hr.rootDigest, decodeHashName_fit hr.hashAlgorithm, hdrop⟩, body, hrecord, hlt⟩

/-! ### Properties -/

/-- What a property is read from. -/
theorem decodeProperty_eq_ok {data : Bytes} {d : PropertyDescriptor} :
    decodeProperty data = .ok d ↔ ∃ tag body tail, openRecord .property data = .ok (tag, body) ∧
      propertyLayout.unpack body = .ok ((d.key.length : Int), (d.value.length : Int), ()) ∧
      d.key.length < 1 <<< 63 ∧ d.value.length < 1 <<< 63 ∧
      body.drop propertyLayout.size = d.key ++ 0 :: (d.value ++ 0 :: tail) := by
  constructor
  · intro h
    obtain ⟨⟨tag, body⟩, hopen, h₁⟩ := Outcome.bind_eq_ok.1 h
    obtain ⟨⟨(keySize : Int), (valueSize : Int), ⟨⟩⟩, hrow, h₂⟩ := Outcome.bind_eq_ok.1 h₁
    obtain ⟨hkey, hvalue, -⟩ := Layout.holds_of_unpack hrow
    obtain ⟨hkeyShort, h₃⟩ := (checkLength_bind_eq_ok (by decide) hkey.1).1 h₂
    obtain ⟨hvalueShort, h₄⟩ := (checkLength_bind_eq_ok (by decide) hvalue.1).1 h₃
    obtain ⟨key, rest, rfl, hdrop, h₅⟩ := (takePart_bind_eq_ok hkey.1).1 h₄
    obtain ⟨rest, rfl, h₆⟩ := takeTerminator_bind_eq_ok.1 h₅
    obtain ⟨value, rest, rfl, rfl, h₇⟩ := (takePart_bind_eq_ok hvalue.1).1 h₆
    obtain ⟨tail, rfl, h₈⟩ := takeTerminator_bind_eq_ok.1 h₇
    obtain rfl := Except.ok.inj h₈
    exact ⟨tag, body, tail, hopen, hrow, Int.ofNat_lt.1 hkeyShort, Int.ofNat_lt.1 hvalueShort,
      hdrop⟩
  · rintro ⟨tag, body, tail, hopen, hrow, hkey, hvalue, hdrop⟩
    refine Outcome.bind_eq_ok.2 ⟨_, hopen, Outcome.bind_eq_ok.2 ⟨_, hrow, ?_⟩⟩
    refine (checkLength_bind_eq_ok (by decide) (Int.natCast_nonneg _)).2 ⟨Int.ofNat_lt.2 hkey, ?_⟩
    refine (checkLength_bind_eq_ok (by decide) (Int.natCast_nonneg _)).2
      ⟨Int.ofNat_lt.2 hvalue, ?_⟩
    refine (takePart_bind_eq_ok (Int.natCast_nonneg _)).2 ⟨_, _, rfl, hdrop, ?_⟩
    refine takeTerminator_bind_eq_ok.2 ⟨_, rfl, ?_⟩
    refine (takePart_bind_eq_ok (Int.natCast_nonneg _)).2 ⟨_, _, rfl, rfl, ?_⟩
    exact takeTerminator_bind_eq_ok.2 ⟨_, rfl, rfl⟩

/-- A property that was read is in range, unless it has more bytes than any byte string. -/
theorem inRange_of_decodeProperty {data : Bytes} {d : PropertyDescriptor}
    (h : decodeProperty data = .ok d) (hdata : data.length < 1 <<< 63) : d.InRange := by
  obtain ⟨tag, body, tail, hopen, -, -, -, hdrop⟩ := decodeProperty_eq_ok.1 h
  obtain ⟨following, -, -, -, -, -, hbody⟩ := openRecord_eq_ok.1 hopen
  have hlength : body.length ≤ data.length - 16 := by
    rw [hbody, Bytes.length_slice]
    exact Nat.min_le_right _ _
  have hparts := congrArg List.length hdrop
  rw [List.length_drop, show propertyLayout.size = 16 from rfl] at hparts
  simp only [List.length_append, List.length_cons] at hparts
  exact ⟨following_lt (by omega)⟩

/-- A property is read back. -/
theorem decodeProperty_encodeProperty {d : PropertyDescriptor} {blob : Bytes}
    (h : encodeProperty d = .ok blob) (hr : d.InRange) :
    decodeProperty blob = .ok d ∧ ∃ body, IsRecord 0 body blob ∧ body.length < 1 <<< 63 := by
  obtain ⟨fixed, hfixed, hwritten⟩ := Outcome.bind_eq_ok.1 h
  have hlength : (d.key ++ [0] ++ d.value ++ [0]).length = d.key.length + d.value.length + 2 := by
    simp only [List.length_append, List.length_cons, List.length_nil]
    omega
  have hsize : Number.roundUp (propertyLayout.size +
      (d.key ++ [0] ++ d.value ++ [0]).length : Nat) 8 < (1 <<< 63 : Nat) := by
    rw [hlength]
    exact hr.following
  obtain ⟨body, padding, hopen, hrow, hdrop, hrecord, hlt⟩ :=
    @open_encodeRecord .property _ _ _ _ _ _ hfixed hwritten rfl rfl hsize
  have hbound := (@Number.roundUp_spec (propertyLayout.size +
    (d.key ++ [0] ++ d.value ++ [0]).length : Nat) 8 (by decide)).1
  have hsplit : body.drop propertyLayout.size = d.key ++ 0 :: (d.value ++ 0 :: padding) := by
    rw [hdrop]
    simp
  exact ⟨decodeProperty_eq_ok.2 ⟨_, body, padding, hopen, hrow, by omega, by omega, hsplit⟩, body,
    hrecord, hlt⟩

/-! ### Command lines -/

/-- What a kernel command line is read from. -/
theorem decodeCmdline_eq_ok {data : Bytes} {d : CmdlineDescriptor} :
    decodeCmdline data = .ok d ↔ ∃ tag body tail, openRecord .cmdline data = .ok (tag, body) ∧
      cmdlineLayout.unpack body =
        .ok (d.flags, ((Bytes.ofString d.kernelCmdline).length : Int), ()) ∧
      ShortLength (Bytes.ofString d.kernelCmdline) ∧
      body.drop cmdlineLayout.size = Bytes.ofString d.kernelCmdline ++ tail := by
  constructor
  · intro h
    obtain ⟨⟨tag, body⟩, hopen, h₁⟩ := Outcome.bind_eq_ok.1 h
    obtain ⟨⟨(flags : Int), (size : Int), ⟨⟩⟩, hrow, h₂⟩ := Outcome.bind_eq_ok.1 h₁
    obtain ⟨-, hsize, -⟩ := Layout.holds_of_unpack hrow
    obtain ⟨hshort, h₃⟩ := (checkLength_bind_eq_ok (by decide) hsize.1).1 h₂
    obtain ⟨text, tail, rfl, hdrop, h₄⟩ := (takePart_bind_eq_ok hsize.1).1 h₃
    obtain ⟨kernelCmdline, htext, h₅⟩ := Outcome.bind_eq_ok.1 h₄
    obtain rfl := decodeText_eq_ok.1 htext
    obtain rfl := Except.ok.inj h₅
    exact ⟨tag, body, tail, hopen, hrow, Int.ofNat_lt.1 hshort, hdrop⟩
  · rintro ⟨tag, body, tail, hopen, hrow, hshort, hdrop⟩
    refine Outcome.bind_eq_ok.2 ⟨_, hopen, Outcome.bind_eq_ok.2 ⟨_, hrow, ?_⟩⟩
    refine (checkLength_bind_eq_ok (by decide) (Int.natCast_nonneg _)).2
      ⟨Int.ofNat_lt.2 hshort, ?_⟩
    refine (takePart_bind_eq_ok (Int.natCast_nonneg _)).2 ⟨_, _, rfl, hdrop, ?_⟩
    exact Outcome.bind_eq_ok.2 ⟨_, decodeText_eq_ok.2 rfl, rfl⟩

theorem inRange_of_decodeCmdline {data : Bytes} {d : CmdlineDescriptor}
    (h : decodeCmdline data = .ok d) : d.InRange := by
  obtain ⟨tag, body, tail, -, hrow, hshort, -⟩ := decodeCmdline_eq_ok.1 h
  obtain ⟨hflags, -⟩ := Layout.holds_of_unpack hrow
  exact ⟨hflags, hshort⟩

/-- A kernel command line is read back. -/
theorem decodeCmdline_encodeCmdline {d : CmdlineDescriptor} {blob : Bytes}
    (h : encodeCmdline d = .ok blob) (hr : d.InRange) :
    decodeCmdline blob = .ok d ∧ ∃ body, IsRecord 3 body blob ∧ body.length < 1 <<< 63 := by
  obtain ⟨fixed, hfixed, hwritten⟩ := Outcome.bind_eq_ok.1 h
  have hsize : Number.roundUp (cmdlineLayout.size +
      (Bytes.ofString d.kernelCmdline).length : Nat) 8 < (1 <<< 63 : Nat) := by
    have := hr.kernelCmdline
    unfold ShortLength at this
    refine following_lt ?_
    rw [show cmdlineLayout.size = 8 from rfl]
    omega
  obtain ⟨body, padding, hopen, hrow, hdrop, hrecord, hlt⟩ :=
    @open_encodeRecord .cmdline _ _ _ _ _ _ hfixed hwritten rfl rfl hsize
  exact ⟨decodeCmdline_eq_ok.2 ⟨_, body, padding, hopen, hrow, hr.kernelCmdline, hdrop⟩, body,
    hrecord, hlt⟩

/-! ### Chained partitions -/

/-- The key of a chain descriptor is read back. -/
theorem decodeKey_encodeKey {key : Option PublicKey} {data : Bytes} (h : encodeKey key = .ok data)
    (hr : ∀ k, key = some k → k.InRange) : decodeKey data = .ok key := by
  cases key with
  | none =>
    obtain rfl := Except.ok.inj h
    rfl
  | some key =>
    have hlength := PublicKey.length_of_encode h
    have hne : ¬data.isEmpty := by
      rw [List.isEmpty_iff_length_eq_zero]
      omega
    rw [decodeKey, if_neg hne, PublicKey.decode_encode h (hr key rfl).2]
    rfl

/-- A key that was read has a size in range. -/
theorem keyInRange_of_decode {data : Bytes} {key : PublicKey}
    (h : decodeKey data = .ok (some key)) : key.InRange := by
  unfold decodeKey at h
  split at h
  · cases h
  · obtain ⟨found, hfound, hkey⟩ := Outcome.map_eq_ok.1 h
    obtain rfl := Option.some.inj hkey
    exact PublicKey.inRange_of_decode hfound

/-- An encoded key is short. -/
theorem shortLength_of_encodeKey {key : Option PublicKey} {data : Bytes}
    (h : encodeKey key = .ok data) (hr : ∀ k, key = some k → k.InRange) : ShortLength data := by
  unfold ShortLength
  cases key with
  | none =>
    obtain rfl := Except.ok.inj h
    decide
  | some key =>
    have hlength := PublicKey.length_of_encode h
    have hbits := (hr key rfl).2
    omega

/-- What a chained partition is read from. -/
theorem decodeChain_eq_ok {data : Bytes} {d : ChainDescriptor} :
    decodeChain data = .ok d ↔ ∃ tag body key tail, openRecord .chain data = .ok (tag, body) ∧
      chainLayout.unpack body = .ok (d.rollbackIndexLocation,
        ((Bytes.ofString d.partitionName).length : Int), ((key : Bytes).length : Int), d.flags,
        d.reserved, ()) ∧
      ShortLength (Bytes.ofString d.partitionName) ∧ ShortLength key ∧
      decodeKey key = .ok d.publicKey ∧
      body.drop chainLayout.size = Bytes.ofString d.partitionName ++ (key ++ tail) := by
  constructor
  · intro h
    obtain ⟨⟨tag, body⟩, hopen, h₁⟩ := Outcome.bind_eq_ok.1 h
    obtain ⟨⟨(location : Int), (nameSize : Int), (keySize : Int), (flags : Int), reserved, ⟨⟩⟩,
      hrow, h₂⟩ := Outcome.bind_eq_ok.1 h₁
    obtain ⟨-, hname, hkey, -⟩ := Layout.holds_of_unpack hrow
    obtain ⟨hnameShort, h₃⟩ := (checkLength_bind_eq_ok (by decide) hname.1).1 h₂
    obtain ⟨hkeyShort, h₄⟩ := (checkLength_bind_eq_ok (by decide) hkey.1).1 h₃
    obtain ⟨name, rest, rfl, hdrop, h₅⟩ := (takePart_bind_eq_ok hname.1).1 h₄
    obtain ⟨partitionName, htext, h₆⟩ := Outcome.bind_eq_ok.1 h₅
    obtain rfl := decodeText_eq_ok.1 htext
    obtain ⟨key, tail, rfl, rfl, h₇⟩ := (takePart_bind_eq_ok hkey.1).1 h₆
    obtain ⟨publicKey, hpublic, h₈⟩ := Outcome.bind_eq_ok.1 h₇
    obtain rfl := Except.ok.inj h₈
    exact ⟨tag, body, key, tail, hopen, hrow, Int.ofNat_lt.1 hnameShort, Int.ofNat_lt.1 hkeyShort,
      hpublic, hdrop⟩
  · rintro ⟨tag, body, key, tail, hopen, hrow, hname, hkey, hpublic, hdrop⟩
    refine Outcome.bind_eq_ok.2 ⟨_, hopen, Outcome.bind_eq_ok.2 ⟨_, hrow, ?_⟩⟩
    refine (checkLength_bind_eq_ok (by decide) (Int.natCast_nonneg _)).2 ⟨Int.ofNat_lt.2 hname, ?_⟩
    refine (checkLength_bind_eq_ok (by decide) (Int.natCast_nonneg _)).2 ⟨Int.ofNat_lt.2 hkey, ?_⟩
    refine (takePart_bind_eq_ok (Int.natCast_nonneg _)).2 ⟨_, _, rfl, hdrop, ?_⟩
    refine Outcome.bind_eq_ok.2 ⟨_, decodeText_eq_ok.2 rfl, ?_⟩
    refine (takePart_bind_eq_ok (Int.natCast_nonneg _)).2 ⟨_, _, rfl, rfl, ?_⟩
    exact Outcome.bind_eq_ok.2 ⟨_, hpublic, rfl⟩

/-- A chained partition that was read is in range. -/
theorem inRange_of_decodeChain {data : Bytes} {d : ChainDescriptor}
    (h : decodeChain data = .ok d) : d.InRange := by
  obtain ⟨tag, body, key, tail, -, hrow, hname, -, hpublic, -⟩ := decodeChain_eq_ok.1 h
  obtain ⟨hlocation, -, -, hflags, hreserved, -⟩ := Layout.holds_of_unpack hrow
  exact {
    rollbackIndexLocation := hlocation
    partitionName := hname
    publicKey := fun key hkey => keyInRange_of_decode (hkey ▸ hpublic)
    flags := hflags
    reserved := hreserved }

/-- A chained partition is read back. -/
theorem decodeChain_encodeChain {d : ChainDescriptor} {blob : Bytes}
    (h : encodeChain d = .ok blob) (hr : d.InRange) :
    decodeChain blob = .ok d ∧ ∃ body, IsRecord 4 body blob ∧ body.length < 1 <<< 63 := by
  obtain ⟨key, hkey, hparts⟩ := Outcome.bind_eq_ok.1 h
  obtain ⟨fixed, hfixed, hwritten⟩ := Outcome.bind_eq_ok.1 hparts
  have hshort := shortLength_of_encodeKey hkey hr.publicKey
  have hsize : Number.roundUp (chainLayout.size +
      (Bytes.ofString d.partitionName ++ key).length : Nat) 8 < (1 <<< 63 : Nat) := by
    have := hr.partitionName
    unfold ShortLength at *
    refine following_lt ?_
    rw [List.length_append, show chainLayout.size = 76 from rfl]
    omega
  obtain ⟨body, padding, hopen, hrow, hdrop, hrecord, hlt⟩ :=
    @open_encodeRecord .chain _ _ _ _ _ _ hfixed hwritten rfl rfl hsize
  simp only [chainLayout, Layout.fitted, Field.fitted, Bytes.fit_of_length hr.reserved] at hrow
  rw [List.append_assoc] at hdrop
  exact ⟨decodeChain_eq_ok.2 ⟨_, body, key, padding, hopen, hrow, hr.partitionName, hshort,
    decodeKey_encodeKey hkey hr.publicKey, hdrop⟩, body, hrecord, hlt⟩

/-! ### Any record -/

/-- A record without a layout of its own is read back, body and tag. -/
theorem decodeUnknown_encodeUnknown {d : UnknownDescriptor} {blob : Bytes}
    (h : encodeUnknown d = .ok blob) (hr : d.InRange) :
    decodeUnknown blob = .ok d ∧
      ∃ tag, d.tag = some tag ∧ IsRecord tag d.data blob ∧ d.data.length < 1 <<< 63 := by
  obtain ⟨tag, htag, -, -⟩ := hr.tag
  unfold encodeUnknown at h
  rw [htag] at h
  split at h
  · cases h
  · obtain ⟨head, hhead, hwritten⟩ := Outcome.bind_eq_ok.1 h
    have hrecord : IsRecord tag d.data blob := ⟨head, hhead, (Except.ok.inj hwritten).symm⟩
    have hopen : openRecord .unknown blob = .ok (tag, d.data) :=
      hrecord.openRecord_blob nofun (Nat.le_add_right _ _) hr.data
    have hd : (⟨some tag, d.data⟩ : UnknownDescriptor) = d := by rw [← htag]
    exact ⟨Outcome.bind_eq_ok.2 ⟨_, hopen, congrArg Except.ok hd⟩, tag, htag, hrecord, hr.data⟩

/-- The kind of a tag is the one that has it, and no other kind if it is not one of the first
five. -/
theorem ofTag_eq_unknown {tag : Int} (h : 0 ≤ tag) :
    DescriptorKind.ofTag tag = .unknown ↔ 5 ≤ tag := by
  unfold DescriptorKind.ofTag
  repeat' split
  all_goals simp only [reduceCtorEq, false_iff, true_iff]
  all_goals omega

/-- A record is decoded by the kind that its tag selects. -/
theorem decode_of_unpack {data : Bytes} {tag following : Int}
    (h : preamble.unpack data = .ok (tag, following, ())) :
    decode data = decodeAs (DescriptorKind.ofTag tag) data := by
  unfold decode
  rw [h]
  rfl

/-- A descriptor is read back from its record. -/
theorem decode_encode {d : Descriptor} {blob : Bytes} (h : encode d = .ok blob)
    (hr : d.InRange) :
    decode blob = .ok d ∧ ∃ tag body, IsRecord tag body blob ∧ body.length < 1 <<< 63 := by
  have hselect {tag : Int} {body : Bytes} (hrecord : IsRecord tag body blob) :
      decode blob = decodeAs (DescriptorKind.ofTag tag) blob := by
    have hunpack := hrecord.unpack []
    rw [List.append_nil] at hunpack
    exact decode_of_unpack hunpack
  cases d with
  | property d =>
    obtain ⟨hdecode, body, hrecord, hlt⟩ := decodeProperty_encodeProperty h hr
    exact ⟨(hselect hrecord).trans (Outcome.map_eq_ok.2 ⟨d, hdecode, rfl⟩), 0, body, hrecord, hlt⟩
  | hashtree d =>
    obtain ⟨hdecode, body, hrecord, hlt⟩ := decodeHashtree_encodeHashtree h hr
    exact ⟨(hselect hrecord).trans (Outcome.map_eq_ok.2 ⟨d, hdecode, rfl⟩), 1, body, hrecord, hlt⟩
  | hash d =>
    obtain ⟨hdecode, body, hrecord, hlt⟩ := decodeHash_encodeHash h hr
    exact ⟨(hselect hrecord).trans (Outcome.map_eq_ok.2 ⟨d, hdecode, rfl⟩), 2, body, hrecord, hlt⟩
  | cmdline d =>
    obtain ⟨hdecode, body, hrecord, hlt⟩ := decodeCmdline_encodeCmdline h hr
    exact ⟨(hselect hrecord).trans (Outcome.map_eq_ok.2 ⟨d, hdecode, rfl⟩), 3, body, hrecord, hlt⟩
  | chain d =>
    obtain ⟨hdecode, body, hrecord, hlt⟩ := decodeChain_encodeChain h hr
    exact ⟨(hselect hrecord).trans (Outcome.map_eq_ok.2 ⟨d, hdecode, rfl⟩), 4, body, hrecord, hlt⟩
  | unknown d =>
    -- A record of a kind of its own must not have the tag of another kind, or it would be read as
    -- that.
    obtain ⟨hdecode, tag, htag, hrecord, hlt⟩ := decodeUnknown_encodeUnknown h hr
    obtain ⟨found, hfound, hfive, hfits⟩ := hr.tag
    obtain rfl : tag = found := Option.some.inj (htag.symm.trans hfound)
    have hkind := (ofTag_eq_unknown hfits.1).2 hfive
    have hdecoded := hselect hrecord
    rw [hkind] at hdecoded
    exact ⟨hdecoded.trans (Outcome.map_eq_ok.2 ⟨d, hdecode, rfl⟩), tag, d.data, hrecord, hlt⟩

/-- A record without a layout of its own that was read has its tag and its body. -/
theorem inRange_of_decodeUnknown {data : Bytes} {d : UnknownDescriptor} {tag following : Int}
    (hrow : preamble.unpack data = .ok (tag, following, ())) (htag : 5 ≤ tag)
    (h : decodeUnknown data = .ok d) : d.InRange := by
  obtain ⟨⟨found, body⟩, hopen, hd⟩ := Outcome.bind_eq_ok.1 h
  obtain ⟨size, hfound, hlt, -, -, -, hbody⟩ := openRecord_eq_ok.1 hopen
  obtain ⟨⟨hnonneg, hfits⟩, -⟩ := Layout.holds_of_unpack hrow
  rw [hrow] at hfound
  obtain rfl : tag = found := congrArg Prod.fst (Except.ok.inj hfound)
  obtain rfl := Except.ok.inj hd
  refine ⟨⟨tag, rfl, htag, hnonneg, hfits⟩, ?_⟩
  refine Nat.lt_of_le_of_lt ?_ hlt
  rw [hbody, Bytes.slice, List.length_take]
  exact Nat.min_le_left _ _

/-- A descriptor that was read is in range, unless it has more bytes than any byte string. -/
theorem inRange_of_decode {data : Bytes} {d : Descriptor} (h : decode data = .ok d)
    (hdata : data.length < 1 <<< 63) : d.InRange := by
  obtain ⟨⟨(tag : Int), (following : Int), ⟨⟩⟩, hrow, h⟩ := Outcome.bind_eq_ok.1 h
  have hnonneg : 0 ≤ tag := (Layout.holds_of_unpack hrow).1.1
  change decodeAs (DescriptorKind.ofTag tag) data = .ok d at h
  cases hkind : DescriptorKind.ofTag tag with
  | property =>
    rw [hkind] at h
    obtain ⟨content, hcontent, rfl⟩ := Outcome.map_eq_ok.1 h
    exact inRange_of_decodeProperty hcontent hdata
  | hashtree =>
    rw [hkind] at h
    obtain ⟨content, hcontent, rfl⟩ := Outcome.map_eq_ok.1 h
    exact inRange_of_decodeHashtree hcontent
  | hash =>
    rw [hkind] at h
    obtain ⟨content, hcontent, rfl⟩ := Outcome.map_eq_ok.1 h
    exact inRange_of_decodeHash hcontent
  | cmdline =>
    rw [hkind] at h
    obtain ⟨content, hcontent, rfl⟩ := Outcome.map_eq_ok.1 h
    exact inRange_of_decodeCmdline hcontent
  | chain =>
    rw [hkind] at h
    obtain ⟨content, hcontent, rfl⟩ := Outcome.map_eq_ok.1 h
    exact inRange_of_decodeChain hcontent
  | unknown =>
    rw [hkind] at h
    obtain ⟨content, hcontent, rfl⟩ := Outcome.map_eq_ok.1 h
    exact inRange_of_decodeUnknown hrow ((ofTag_eq_unknown hnonneg).1 hkind) hcontent

/-! ### Lists of records -/

/-- A list of records ends where fewer bytes than a preamble are left. -/
theorem decodeAll_of_short {data : Bytes} (h : data.length < 16) : decodeAll data = .ok [] := by
  rw [decodeAll, if_pos h]

/-- A list of records begins with the record whose size it says. -/
theorem decodeAll_of_recordSize {data : Bytes} {size : Nat} (hlength : ¬data.length < 16)
    (hsize : recordSize data = .ok size) :
    decodeAll data = do
      let d ← decode (data.take size)
      let rest ← decodeAll (data.drop size)
      return d :: rest := by
  rw [decodeAll, if_neg hlength]
  split
  · next e he => exact absurd (hsize.symm.trans he) (by simp)
  · next found hfound =>
    obtain rfl : size = found := Outcome.ok_unique hsize hfound
    rfl

/-- Records are read back from their bytes, and fewer bytes than a preamble behind them do no
harm. -/
theorem decodeAll_encodeAll {ds : List Descriptor} {blob tail : Bytes}
    (h : encodeAll ds = .ok blob) (hr : ∀ d ∈ ds, d.InRange) (htail : tail.length < 16) :
    decodeAll (blob ++ tail) = .ok ds := by
  induction ds generalizing blob with
  | nil =>
    obtain rfl := Except.ok.inj h
    exact decodeAll_of_short htail
  | cons d rest ih =>
    obtain ⟨head, hhead, hrest⟩ := Outcome.bind_eq_ok.1 h
    obtain ⟨left, hleft, hblob⟩ := Outcome.bind_eq_ok.1 hrest
    obtain rfl := Except.ok.inj hblob
    obtain ⟨hdecode, tag, body, hrecord, hlt⟩ := decode_encode hhead (hr d List.mem_cons_self)
    have hall := ih hleft fun d hd => hr d (List.mem_cons_of_mem _ hd)
    have hsize := hrecord.recordSize_append hlt (left ++ tail)
    have hlength : ¬(head ++ (left ++ tail)).length < 16 := by
      rw [List.length_append, hrecord.length_blob]
      omega
    rw [List.append_assoc, decodeAll_of_recordSize hlength hsize, List.take_left, List.drop_left,
      hdecode, hall]
    rfl

/-- Descriptors that were read are in range, unless there are more bytes than in any byte string. -/
theorem inRange_of_decodeAll {data : Bytes} {ds : List Descriptor} (h : decodeAll data = .ok ds)
    (hdata : data.length < 1 <<< 63) : ∀ d ∈ ds, d.InRange := by
  induction hn : data.length using Nat.strongRecOn generalizing data ds with
  | _ n ih =>
  by_cases hshort : data.length < 16
  · rw [decodeAll_of_short hshort] at h
    obtain rfl := Except.ok.inj h
    exact fun d hd => absurd hd List.not_mem_nil
  · cases hsize : recordSize data with
    | error e =>
      rw [decodeAll, if_neg hshort] at h
      split at h
      · cases h
      · next found hfound => exact absurd (hsize.symm.trans hfound) (by simp)
    | ok size =>
      rw [decodeAll_of_recordSize hshort hsize] at h
      obtain ⟨d, hd, hrest⟩ := Outcome.bind_eq_ok.1 h
      obtain ⟨rest, hdrop, hds⟩ := Outcome.bind_eq_ok.1 hrest
      obtain rfl := Except.ok.inj hds
      have hpos := recordSize_pos hsize
      have htake : (data.take size).length < 1 <<< 63 := by
        rw [List.length_take]
        omega
      have hfewer : (data.drop size).length < n := by
        rw [List.length_drop]
        omega
      have hall := ih _ hfewer hdrop (by omega) rfl
      exact List.forall_mem_cons.2 ⟨inRange_of_decode hd htake, hall⟩

end Descriptor

end VerifiedBoot
