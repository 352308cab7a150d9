import Mathlib.Tactic.Common
import VerifiedBoot.Proofs.Descriptor.Range
import VerifiedBoot.Proofs.Layout
import VerifiedBoot.Proofs.Rounding

/-!
# Records and their parts

Whatever is written for a descriptor is a record: a preamble with the tag and the size of the body,
and the body. A record is opened again, and it says where it ends, so that what follows it does not
matter. The parts of a body are taken from its head one after the other.
-/

namespace VerifiedBoot

/-- Bytes that denote a text are the bytes of that text. -/
theorem Bytes.eq_ofString_of_toString? {data : Bytes} {text : String}
    (h : toString? data = some text) : data = ofString text := by
  unfold toString? String.fromUTF8? at h
  split at h
  · obtain rfl := Option.some.inj h
    rfl
  · cases h

namespace Descriptor

/-- What a record has to be to be opened as a kind. -/
theorem openRecord_eq_ok {kind : DescriptorKind} {data body : Bytes} {tag : Int} :
    openRecord kind data = .ok (tag, body) ↔ ∃ following : Nat,
      preamble.unpack data = .ok (tag, (following : Int), ()) ∧ following < 1 <<< 63 ∧
      (∀ expected, kind.tag? = some expected → tag = expected) ∧ 16 + following ≤ data.length ∧
      fixedSize kind ≤ 16 + following ∧ body = Bytes.slice data 16 following := by
  constructor
  · intro h
    obtain ⟨⟨(found : Int), (following : Int), ⟨⟩⟩, hrow, h⟩ := Outcome.bind_eq_ok.1 h
    obtain ⟨checked, hchecked, hrest⟩ := Outcome.bind_eq_ok.1 h
    -- The size is an unsigned field, so the check can only turn it down for being too large.
    have hnonneg : 0 ≤ following := by
      obtain ⟨hlength, hread⟩ := Layout.unpack_eq_ok.1 hrow
      exact (hread ▸ Layout.holds_read hlength : preamble.Holds (found, following, ())).2.1.1
    obtain ⟨rfl, hlt⟩ := (checkUnsigned_eq_ok (by decide) hnonneg).1 hchecked
    obtain ⟨n, rfl⟩ := Int.eq_ofNat_of_zero_le hnonneg
    have hopen : (∀ expected, kind.tag? = some expected → found = expected) ∧
        ¬(data.length : Int) < 16 + (n : Int) ∧ ¬(16 : Int) + n < fixedSize kind ∧
        found = tag ∧ Bytes.slice data 16 n = body := by
      cases hkind : kind.tag? with
      | none =>
        simp only [hkind] at hrest
        obtain ⟨hlength, hrest⟩ := Outcome.guard_eq_ok.1 hrest
        obtain ⟨hfixed, hrest⟩ := Outcome.guard_eq_ok.1 hrest
        obtain ⟨htag, hbody⟩ := Prod.mk.inj (Except.ok.inj hrest)
        exact ⟨nofun, hlength, hfixed, htag, hbody⟩
      | some expected =>
        simp only [hkind] at hrest
        obtain ⟨hexpected, hrest⟩ := Outcome.guard_eq_ok.1 hrest
        obtain ⟨hlength, hrest⟩ := Outcome.guard_eq_ok.1 hrest
        obtain ⟨hfixed, hrest⟩ := Outcome.guard_eq_ok.1 hrest
        obtain ⟨htag, hbody⟩ := Prod.mk.inj (Except.ok.inj hrest)
        exact ⟨fun e he => Option.some.inj he ▸ not_not.1 hexpected, hlength, hfixed, htag, hbody⟩
    obtain ⟨htag, hlength, hfixed, rfl, rfl⟩ := hopen
    exact ⟨n, hrow, Int.ofNat_lt.1 hlt, htag, by omega, by omega, rfl⟩
  · rintro ⟨following, hrow, hlt, htag, hlength, hfixed, rfl⟩
    have hcheck : checkUnsigned (following : Int) 64 "num_bytes_following" =
        .ok (following : Int) :=
      (checkUnsigned_eq_ok (by decide) (Int.natCast_nonneg _)).2 ⟨rfl, Int.ofNat_lt.2 hlt⟩
    refine Outcome.bind_eq_ok.2 ⟨_, hrow, Outcome.bind_eq_ok.2 ⟨_, hcheck, ?_⟩⟩
    cases hkind : kind.tag? with
    | none =>
      refine Outcome.guard_eq_ok.2 ⟨by omega, Outcome.guard_eq_ok.2 ⟨by omega, rfl⟩⟩
    | some expected =>
      refine Outcome.guard_eq_ok.2 ⟨not_not.2 (htag expected hkind), ?_⟩
      exact Outcome.guard_eq_ok.2 ⟨by omega, Outcome.guard_eq_ok.2 ⟨by omega, rfl⟩⟩

/-- A record with a tag and a body. -/
structure IsRecord (tag : Int) (body blob : Bytes) : Prop where
  split : ∃ head, preamble.pack (tag, (body.length : Int), ()) = .ok head ∧ blob = head ++ body

namespace IsRecord

variable {tag : Int} {body blob : Bytes}

/-- The preamble of a record, whatever follows the record. -/
theorem unpack (h : IsRecord tag body blob) (rest : Bytes) :
    preamble.unpack (blob ++ rest) = .ok (tag, (body.length : Int), ()) := by
  obtain ⟨head, hhead, rfl⟩ := h.split
  rw [List.append_assoc]
  exact Layout.unpack_pack_fitted hhead (body ++ rest)

theorem length_blob (h : IsRecord tag body blob) : blob.length = 16 + body.length := by
  obtain ⟨head, hhead, rfl⟩ := h.split
  rw [List.length_append, Layout.length_pack hhead]
  rfl

theorem slice_blob (h : IsRecord tag body blob) : Bytes.slice blob 16 body.length = body := by
  obtain ⟨head, hhead, rfl⟩ := h.split
  have hlength : head.length = 16 := Layout.length_pack hhead
  rw [Bytes.slice, List.drop_left' hlength, List.take_length]

/-- The size of the record at the head of the data. -/
theorem recordSize_append (h : IsRecord tag body blob) (hbody : body.length < 1 <<< 63)
    (rest : Bytes) : recordSize (blob ++ rest) = .ok blob.length := by
  have hcheck : checkUnsigned (body.length : Int) 64 "num_bytes_following" =
      .ok (body.length : Int) :=
    (checkUnsigned_eq_ok (by decide) (Int.natCast_nonneg _)).2 ⟨rfl, Int.ofNat_lt.2 hbody⟩
  have hlength := h.length_blob
  refine Outcome.bind_eq_ok.2 ⟨_, h.unpack rest, Outcome.bind_eq_ok.2 ⟨_, hcheck, ?_⟩⟩
  refine Outcome.guard_eq_ok.2 ⟨?_, ?_⟩
  · rw [List.length_append]
    omega
  · rw [Int.toNat_natCast, hlength]
    rfl

/-- A record is opened as a kind that may carry its tag, if the body holds the fixed part. -/
theorem openRecord_blob (h : IsRecord tag body blob) {kind : DescriptorKind}
    (htag : ∀ expected, kind.tag? = some expected → tag = expected)
    (hfixed : fixedSize kind ≤ 16 + body.length) (hbody : body.length < 1 <<< 63) :
    openRecord kind blob = .ok (tag, body) := by
  have hunpack := h.unpack []
  rw [List.append_nil] at hunpack
  exact openRecord_eq_ok.2 ⟨body.length, hunpack, hbody, htag,
    Nat.le_of_eq h.length_blob.symm, hfixed,
    h.slice_blob.symm⟩

end IsRecord

/-- A written record is one with its tag, whose body is its parts and the bytes that fill it up. -/
theorem isRecord_of_encodeRecord {tag : Nat} {fixed rest blob : Bytes}
    (h : encodeRecord tag fixed rest = .ok blob) :
    ∃ padding, IsRecord tag (fixed ++ (rest ++ padding)) blob ∧
      (fixed ++ (rest ++ padding)).length =
        (Number.roundUp (fixed.length + rest.length : Nat) 8).toNat := by
  obtain ⟨head, hhead, h⟩ := Outcome.bind_eq_ok.1 h
  have hround := (@Number.roundUp_spec (fixed.length + rest.length : Nat) 8 (by decide)).1
  have hbody : Bytes.padTo (Number.roundUp (fixed.length + rest.length : Nat) 8).toNat
      (fixed ++ rest) = fixed ++ (rest ++ Bytes.zeros
        ((Number.roundUp (fixed.length + rest.length : Nat) 8).toNat -
          (fixed ++ rest).length)) := by
    rw [Bytes.padTo, List.append_assoc]
  have hlength := Bytes.length_padTo (Number.roundUp (fixed.length + rest.length : Nat) 8).toNat
    (fixed ++ rest)
  rw [List.length_append, Nat.max_eq_left (by omega)] at hlength
  rw [hbody] at h hlength
  refine ⟨_, ⟨head, ?_, (Except.ok.inj h).symm⟩, hlength⟩
  rw [hlength]
  exact hhead

/-- A written record is opened again, and its body holds the row of the fixed part and the rest. -/
theorem open_encodeRecord {kind : DescriptorKind} {tag : Nat} {layout : Layout} {row : layout.Row}
    {fixed rest blob : Bytes} (hpack : layout.pack row = .ok fixed)
    (h : encodeRecord tag fixed rest = .ok blob) (htag : kind.tag? = some tag)
    (hfixed : fixedSize kind = 16 + layout.size)
    (hsize : Number.roundUp (layout.size + rest.length : Nat) 8 < (1 <<< 63 : Nat)) :
    ∃ body padding, openRecord kind blob = .ok ((tag : Int), body) ∧
      layout.unpack body = .ok (layout.fitted row) ∧ body.drop layout.size = rest ++ padding ∧
      IsRecord tag body blob ∧ body.length < 1 <<< 63 := by
  have hlength := Layout.length_pack hpack
  obtain ⟨padding, hrecord, hbody⟩ := isRecord_of_encodeRecord h
  rw [hlength] at hbody
  have hround := (@Number.roundUp_spec (layout.size + rest.length : Nat) 8 (by decide)).1
  have hlt : (fixed ++ (rest ++ padding)).length < 1 <<< 63 := by omega
  refine ⟨fixed ++ (rest ++ padding), padding, ?_, Layout.unpack_pack_fitted hpack _,
    List.drop_left' hlength, hrecord, hlt⟩
  refine hrecord.openRecord_blob ?_ ?_ hlt
  · intro expected hexpected
    rw [htag] at hexpected
    exact congrArg Int.ofNat (Option.some.inj hexpected)
  · omega

/-! ### Parts -/

variable {β : Type}

/-- A part of a record stands in front of the rest. -/
theorem takePart_bind_eq_ok {part : String} {size : Int} {data : Bytes}
    {f : Bytes × Bytes → Except Error β} {b : β} (hsize : 0 ≤ size) :
    (takePart part size data >>= f) = .ok b ↔
      ∃ head rest : Bytes, size = head.length ∧ data = head ++ rest ∧ f (head, rest) = .ok b := by
  unfold takePart
  constructor
  · intro h
    obtain ⟨⟨head, rest⟩, hpart, hnext⟩ := Outcome.bind_eq_ok.1 h
    split at hpart
    · cases hpart
    · next hlength =>
      obtain ⟨rfl, rfl⟩ := Prod.mk.inj (Except.ok.inj hpart)
      refine ⟨_, _, ?_, (List.take_append_drop size.toNat data).symm, hnext⟩
      rw [List.length_take]
      omega
  · rintro ⟨head, rest, rfl, rfl, h⟩
    have hlength : ¬((head ++ rest).length : Int) < head.length := by
      rw [List.length_append]
      omega
    rw [if_neg hlength, Int.toNat_natCast, List.take_left, List.drop_left]
    exact h

/-- A zero byte stands in front of the rest. -/
theorem takeTerminator_bind_eq_ok {part : String} {data : Bytes} {f : Bytes → Except Error β}
    {b : β} : (takeTerminator part data >>= f) = .ok b ↔
      ∃ rest, data = 0 :: rest ∧ f rest = .ok b := by
  constructor
  · intro h
    obtain ⟨rest, hpart, hnext⟩ := Outcome.bind_eq_ok.1 h
    obtain ⟨mark, left, -, hdata, hmark⟩ := (takePart_bind_eq_ok (by decide)).1 hpart
    obtain ⟨hzero, hleft⟩ := Outcome.guard_eq_ok.1 hmark
    refine ⟨rest, ?_, hnext⟩
    rw [hdata, not_not.1 hzero, Except.ok.inj hleft]
    rfl
  · rintro ⟨rest, rfl, h⟩
    refine Outcome.bind_eq_ok.2 ⟨rest, ?_, h⟩
    refine (takePart_bind_eq_ok (by decide)).2 ⟨[0], rest, rfl, rfl, ?_⟩
    exact Outcome.guard_eq_ok.2 ⟨not_not.2 rfl, rfl⟩

/-- Text is read from exactly its bytes. -/
theorem decodeText_eq_ok {part text : String} {data : Bytes} :
    decodeText part data = .ok text ↔ data = Bytes.ofString text := by
  unfold decodeText
  constructor
  · intro h
    split at h
    · next found hfound =>
      obtain rfl := Except.ok.inj h
      exact Bytes.eq_ofString_of_toString? hfound
    · cases h
  · rintro rfl
    rw [Bytes.toString?_ofString]

/-- The name of a hash algorithm is written if it fits its field. -/
theorem encodeHashName_eq_ok {name : String} {data : Bytes} (h : encodeHashName name = .ok data) :
    data = Bytes.ofString name ∧ data.length ≤ 32 := by
  simp only [encodeHashName] at h
  split at h
  · cases h
  · next hlength =>
    obtain rfl := Except.ok.inj h
    exact ⟨rfl, by omega⟩

/-- The name of a hash algorithm ends before the zeros that fill its field. -/
theorem decodeHashName_fit {name : String} (h : HashNameInRange name) :
    decodeHashName (Bytes.fit 32 (Bytes.ofString name)) = .ok name := by
  refine decodeText_eq_ok.2 ?_
  rw [Bytes.fit, Bytes.padTo, List.take_of_length_le h.1, List.takeWhile_append_of_pos]
  · rw [Bytes.zeros, List.takeWhile_replicate]
    simp
  · intro b hb
    have hne : b ≠ 0 := fun e => h.2 (e ▸ hb)
    simpa using hne

/-- The name of a hash algorithm that was read from its field fits it. -/
theorem hashNameInRange_of_decode {data : Bytes} {name : String} (hlength : data.length = 32)
    (h : decodeHashName data = .ok name) : HashNameInRange name := by
  have hname : data.takeWhile (· ≠ 0) = Bytes.ofString name := decodeText_eq_ok.1 h
  unfold HashNameInRange
  rw [← hname]
  refine ⟨?_, fun hzero => ?_⟩
  · rw [← hlength]
    exact (List.takeWhile_prefix _).length_le
  · simpa using List.all_eq_true.1 List.all_takeWhile 0 hzero

/-- A length goes on if it is below its sign bit. -/
theorem checkLength_bind_eq_ok {bits : Nat} {size : Int} {part : String} {f : Int → Except Error β}
    {b : β} (hbits : 1 ≤ bits) (hsize : 0 ≤ size) :
    (checkUnsigned size bits part >>= f) = .ok b ↔
      size < (1 <<< (bits - 1) : Nat) ∧ f size = .ok b := by
  constructor
  · intro h
    obtain ⟨n, hcheck, hnext⟩ := Outcome.bind_eq_ok.1 h
    obtain ⟨rfl, hlt⟩ := (checkUnsigned_eq_ok hbits hsize).1 hcheck
    exact ⟨hlt, hnext⟩
  · rintro ⟨hlt, h⟩
    exact Outcome.bind_eq_ok.2 ⟨size, (checkUnsigned_eq_ok hbits hsize).2 ⟨rfl, hlt⟩, h⟩

/-! ### The parts of hashes and hash trees -/

/-- Behind their fixed parts hashes and hash trees have the same ones: the name of the partition,
the salt and a digest. They are taken once their lengths and the name of the algorithm have
passed. -/
def digestParts (lengthField part : String) (nameSize saltSize digestSize : Int)
    (algorithm data : Bytes) (next : String → String → Bytes → Bytes → Except Error β) :
    Except Error β := do
  let nameSize : Int ← checkUnsigned nameSize 32 "partition_name_len"
  let saltSize : Int ← checkUnsigned saltSize 32 "salt_len"
  let digestSize : Int ← checkUnsigned digestSize 32 lengthField
  let hashAlgorithm ← decodeHashName algorithm
  let (name, rest) ← takePart "Partition name" nameSize data
  let partitionName ← decodeText "Partition name" name
  let (salt, rest) ← takePart "Salt" saltSize rest
  let (digest, _) ← takePart part digestSize rest
  next hashAlgorithm partitionName salt digest

theorem decodeHash_eq_digestParts (data : Bytes) : decodeHash data = (do
    let (_, body) ← openRecord .hash data
    let (imageSize, algorithm, nameSize, saltSize, digestSize, flags, reserved, _) ←
      hashLayout.unpack body
    checkExtents [("image_size", imageSize)]
    digestParts "digest_len" "Digest" nameSize saltSize digestSize algorithm
      (body.drop hashLayout.size) fun hashAlgorithm partitionName salt digest =>
        return ⟨imageSize, hashAlgorithm, partitionName, salt, digest, flags, reserved⟩) :=
  rfl

theorem decodeHashtree_eq_digestParts (data : Bytes) : decodeHashtree data = (do
    let (_, body) ← openRecord .hashtree data
    let (dmVerityVersion, imageSize, treeOffset, treeSize, dataBlockSize, hashBlockSize,
      fecNumRoots, fecOffset, fecSize, algorithm, nameSize, saltSize, digestSize, flags, reserved,
      _) ← hashtreeLayout.unpack body
    checkExtents [("image_size", imageSize), ("tree_offset", treeOffset), ("tree_size", treeSize),
      ("fec_offset", fecOffset), ("fec_size", fecSize)]
    digestParts "root_digest_len" "Root digest" nameSize saltSize digestSize algorithm
      (body.drop hashtreeLayout.size) fun hashAlgorithm partitionName salt rootDigest =>
        return ⟨dmVerityVersion, imageSize, treeOffset, treeSize, dataBlockSize, hashBlockSize,
          fecNumRoots, fecOffset, fecSize, hashAlgorithm, partitionName, salt, rootDigest, flags,
          reserved⟩) :=
  rfl

/-- The parts are taken exactly if they are short and stand one behind the other. -/
theorem digestParts_eq_ok {lengthField part : String} {nameSize saltSize digestSize : Int}
    {algorithm data : Bytes} {next : String → String → Bytes → Bytes → Except Error β} {b : β}
    (hname : 0 ≤ nameSize) (hsalt : 0 ≤ saltSize) (hdigest : 0 ≤ digestSize) :
    digestParts lengthField part nameSize saltSize digestSize algorithm data next = .ok b ↔
      ∃ hashAlgorithm partitionName salt digest tail,
        nameSize = (Bytes.ofString partitionName).length ∧ saltSize = (salt : Bytes).length ∧
        digestSize = (digest : Bytes).length ∧ ShortLength (Bytes.ofString partitionName) ∧
        ShortLength salt ∧ ShortLength digest ∧ decodeHashName algorithm = .ok hashAlgorithm ∧
        data = Bytes.ofString partitionName ++ (salt ++ (digest ++ tail)) ∧
        next hashAlgorithm partitionName salt digest = .ok b := by
  constructor
  · intro h
    obtain ⟨hnameShort, h₁⟩ := (checkLength_bind_eq_ok (by decide) hname).1 h
    obtain ⟨hsaltShort, h₂⟩ := (checkLength_bind_eq_ok (by decide) hsalt).1 h₁
    obtain ⟨hdigestShort, h₃⟩ := (checkLength_bind_eq_ok (by decide) hdigest).1 h₂
    obtain ⟨hashAlgorithm, halgorithm, h₄⟩ := Outcome.bind_eq_ok.1 h₃
    obtain ⟨name, rest, rfl, rfl, h₅⟩ := (takePart_bind_eq_ok hname).1 h₄
    obtain ⟨partitionName, htext, h₆⟩ := Outcome.bind_eq_ok.1 h₅
    obtain rfl := decodeText_eq_ok.1 htext
    obtain ⟨salt, rest, rfl, rfl, h₇⟩ := (takePart_bind_eq_ok hsalt).1 h₆
    obtain ⟨digest, tail, rfl, rfl, h₈⟩ := (takePart_bind_eq_ok hdigest).1 h₇
    exact ⟨hashAlgorithm, partitionName, salt, digest, tail, rfl, rfl, rfl,
      Int.ofNat_lt.1 hnameShort, Int.ofNat_lt.1 hsaltShort, Int.ofNat_lt.1 hdigestShort,
      halgorithm, rfl, h₈⟩
  · rintro ⟨hashAlgorithm, partitionName, salt, digest, tail, rfl, rfl, rfl, hnameShort,
      hsaltShort, hdigestShort, halgorithm, rfl, h⟩
    refine (checkLength_bind_eq_ok (by decide) hname).2 ⟨Int.ofNat_lt.2 hnameShort, ?_⟩
    refine (checkLength_bind_eq_ok (by decide) hsalt).2 ⟨Int.ofNat_lt.2 hsaltShort, ?_⟩
    refine (checkLength_bind_eq_ok (by decide) hdigest).2 ⟨Int.ofNat_lt.2 hdigestShort, ?_⟩
    refine Outcome.bind_eq_ok.2 ⟨_, halgorithm, ?_⟩
    refine (takePart_bind_eq_ok hname).2 ⟨_, _, rfl, rfl, ?_⟩
    refine Outcome.bind_eq_ok.2 ⟨_, decodeText_eq_ok.2 rfl, ?_⟩
    refine (takePart_bind_eq_ok hsalt).2 ⟨_, _, rfl, rfl, ?_⟩
    exact (takePart_bind_eq_ok hdigest).2 ⟨_, _, rfl, rfl, h⟩

/-- The number of bytes behind a preamble is below its sign bit if the parts are short. -/
theorem following_lt {size : Nat} (h : size + 8 ≤ 1 <<< 63) :
    Number.roundUp (size : Nat) 8 < (1 <<< 63 : Nat) := by
  have hround := (@Number.roundUp_spec size 8 (by decide)).2.1
  omega

/-- So it is behind the name, the salt and the digest of a hash or a hash tree. -/
theorem digestParts_following_lt {fixed : Nat} {name salt digest : Bytes} (hname : ShortLength name)
    (hsalt : ShortLength salt) (hdigest : ShortLength digest) (hfixed : fixed ≤ 1 <<< 32) :
    Number.roundUp (fixed + (name ++ salt ++ digest).length : Nat) 8 < (1 <<< 63 : Nat) := by
  unfold ShortLength at hname hsalt hdigest
  refine following_lt ?_
  rw [List.length_append, List.length_append]
  omega

end Descriptor

end VerifiedBoot
