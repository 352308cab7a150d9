import VerifiedBoot.Proofs.Descriptor.Record
import VerifiedBoot.Proofs.Image.Blocks
import VerifiedBoot.Proofs.Partition.Probe

/-!
# Readers fail only on malformed data

Lengths, offsets, counts and codes are read from bytes that anybody may have written. No reader
fails on them in any other way than by saying that the data is malformed: not by the end of a
stream, nor by a key that is refused, nor by a check over no bits.

Most readers have this from their steps. Two have it from a check that they make before: a key is
put together from a modulus that was found to be odd and above 1, and the two blocks of an image are
read from data that was found to hold them.
-/

namespace VerifiedBoot

namespace Outcome

variable {α β : Type}

/-- An operation that has a value, or else says that its data is malformed. -/
def MalformedAtWorst (x : Except Error α) : Prop :=
  (∃ a, x = .ok a) ∨ ∃ cause, x = .error (.malformed cause)

namespace MalformedAtWorst

theorem ok (a : α) : MalformedAtWorst (.ok a) :=
  .inl ⟨a, rfl⟩

theorem malformed (cause : Malformation) :
    MalformedAtWorst (.error (.malformed cause) : Except Error α) :=
  .inr ⟨cause, rfl⟩

theorem bind {x : Except Error α} {f : α → Except Error β} (hx : MalformedAtWorst x)
    (hf : ∀ a, x = .ok a → MalformedAtWorst (f a)) : MalformedAtWorst (x >>= f) := by
  rcases hx with ⟨a, rfl⟩ | ⟨cause, rfl⟩
  · exact hf a rfl
  · exact malformed cause

theorem map {x : Except Error α} (hx : MalformedAtWorst x) (f : α → β) :
    MalformedAtWorst (f <$> x) := by
  rcases hx with ⟨a, rfl⟩ | ⟨cause, rfl⟩
  · exact ok (f a)
  · exact malformed cause

/-- A guard says that the data is malformed, and what comes behind it may rest on it. -/
theorem guard {c : Prop} {_ : Decidable c} {cause : Malformation} {next : PUnit → Except Error β}
    (h : ¬c → MalformedAtWorst (next ⟨⟩)) :
    MalformedAtWorst (if c then throw (.malformed cause) >>= next else next ⟨⟩) := by
  by_cases hc : c
  · rw [if_pos hc]
    exact malformed cause
  · rw [if_neg hc]
    exact h hc

/-- A choice is, if both of its sides are. -/
theorem choice {c : Prop} {_ : Decidable c} {x y : Except Error α} (hx : c → MalformedAtWorst x)
    (hy : ¬c → MalformedAtWorst y) : MalformedAtWorst (if c then x else y) := by
  by_cases hc : c
  · rw [if_pos hc]
    exact hx hc
  · rw [if_neg hc]
    exact hy hc

end MalformedAtWorst

end Outcome

open Outcome

/-! ### Rows and checks -/

theorem Layout.unpack_malformedAtWorst (layout : Layout) (data : Bytes) :
    MalformedAtWorst (layout.unpack data) :=
  .choice (fun _ => .malformed _) fun _ => .ok _

theorem checkUnsigned_malformedAtWorst (value : Int) {bits : Int} (field : String)
    (h : 1 ≤ bits) : MalformedAtWorst (checkUnsigned value bits field) := by
  unfold checkUnsigned
  rw [if_neg (by omega)]
  exact .choice (fun _ => .malformed _) fun _ => .ok _

/-- One of several numbers may have its sign bit set. -/
theorem checkExtents_malformedAtWorst (extents : List (String × Int)) :
    MalformedAtWorst (checkExtents extents) := by
  induction extents with
  | nil => exact .ok _
  | cons e rest ih =>
    exact .bind (checkUnsigned_malformedAtWorst e.2 e.1 (by decide)) fun _ _ => ih

/-! ### Headers, footers and keys -/

theorem Header.algorithm_malformedAtWorst (header : Header) :
    MalformedAtWorst header.algorithm := by
  unfold algorithm Algorithm.ofCode
  split
  all_goals first | exact .ok _ | exact .malformed _

theorem Header.decode_malformedAtWorst (data : Bytes) : MalformedAtWorst (decode data) := by
  refine .bind (Layout.unpack_malformedAtWorst layout data) fun row _ => .guard fun _ => ?_
  refine .bind (checkExtents_malformedAtWorst (ofRow row).extents) fun _ _ => ?_
  exact .bind (algorithm_malformedAtWorst (ofRow row)) fun _ _ => .ok _

theorem Footer.decode_malformedAtWorst (data : Bytes) : MalformedAtWorst (decode data) := by
  unfold decode
  refine .guard fun _ => .bind (Layout.unpack_malformedAtWorst layout data) fun row _ => ?_
  refine .guard fun _ => ?_
  exact .bind (checkExtents_malformedAtWorst (ofRow row).extents) fun _ _ => .ok _

/-- A modulus that is odd and above 1 is that of a key, so a key that is read is never refused. -/
theorem PublicKey.ofNumbers_eq_ok {modulus : Nat} (hlt : 1 < modulus) (hodd : modulus % 2 = 1) :
    ofNumbers modulus exponent = .ok ⟨modulus, hlt, hodd⟩ := by
  unfold ofNumbers
  rw [if_neg (not_not.2 rfl)]
  exact dif_pos ⟨hlt, hodd⟩

/-- A key is read, or its data is malformed. -/
theorem PublicKey.decode_malformedAtWorst (data : Bytes) : MalformedAtWorst (decode data) := by
  refine .bind (Layout.unpack_malformedAtWorst layout data) fun row _ => ?_
  refine .bind (checkUnsigned_malformedAtWorst row.1 _ (by decide)) fun bits _ => ?_
  refine .guard fun _ => .guard fun _ => .guard fun hsize => .guard fun heven => ?_
  -- Both reasons to refuse a modulus are excluded by the last two checks.
  rw [not_or, Nat.not_le] at hsize
  exact .inl ⟨_, ofNumbers_eq_ok hsize.1 (Nat.mod_two_ne_zero.1 heven)⟩

/-! ### Descriptors -/

namespace Descriptor

theorem takePart_malformedAtWorst (part : String) (size : Int) (data : Bytes) :
    MalformedAtWorst (takePart part size data) :=
  .choice (fun _ => .malformed _) fun _ => .ok _

/-- A part may lack its end. -/
theorem takeTerminator_malformedAtWorst (part : String) (data : Bytes) :
    MalformedAtWorst (takeTerminator part data) :=
  .bind (takePart_malformedAtWorst _ _ data) fun _ _ => .guard fun _ => .ok _

/-- A part may not be text. -/
theorem decodeText_malformedAtWorst (part : String) (data : Bytes) :
    MalformedAtWorst (decodeText part data) := by
  unfold decodeText
  cases Bytes.toString? data with
  | some text => exact .ok text
  | none => exact .malformed _

/-- The name of a hash algorithm may not be text. -/
theorem decodeHashName_malformedAtWorst (data : Bytes) : MalformedAtWorst (decodeHashName data) :=
  decodeText_malformedAtWorst _ _

/-- A record may have another tag than its kind, and may be too long or too short. -/
theorem openRecord_malformedAtWorst (kind : DescriptorKind) (data : Bytes) :
    MalformedAtWorst (openRecord kind data) := by
  refine .bind (Layout.unpack_malformedAtWorst preamble data) fun row _ => ?_
  refine .bind (checkUnsigned_malformedAtWorst row.2.1 _ (by decide)) fun following _ => ?_
  cases kind.tag? with
  | some expected => exact .guard fun _ => .guard fun _ => .guard fun _ => .ok _
  | none => exact .guard fun _ => .guard fun _ => .ok _

/-- A property is read, or its record is malformed. -/
theorem decodeProperty_malformedAtWorst (data : Bytes) :
    MalformedAtWorst (decodeProperty data) := by
  refine .bind (openRecord_malformedAtWorst .property data) fun opened _ => ?_
  refine .bind (Layout.unpack_malformedAtWorst propertyLayout opened.2) fun row _ => ?_
  refine .bind (checkUnsigned_malformedAtWorst row.1 _ (by decide)) fun keySize _ => ?_
  refine .bind (checkUnsigned_malformedAtWorst row.2.1 _ (by decide)) fun valueSize _ => ?_
  refine .bind (takePart_malformedAtWorst _ keySize _) fun key _ => ?_
  refine .bind (takeTerminator_malformedAtWorst _ key.2) fun rest _ => ?_
  refine .bind (takePart_malformedAtWorst _ valueSize rest) fun value _ => ?_
  exact .bind (takeTerminator_malformedAtWorst _ value.2) fun _ _ => .ok _

/-- The parts of a hash or a hash tree may be too long, and the name may not be text. -/
theorem digestParts_malformedAtWorst {β : Type} {lengthField part : String}
    {nameSize saltSize digestSize : Int} {algorithm data : Bytes}
    {next : String → String → Bytes → Bytes → Except Error β}
    (hnext : ∀ hashAlgorithm partitionName salt digest,
      MalformedAtWorst (next hashAlgorithm partitionName salt digest)) :
    MalformedAtWorst (digestParts lengthField part nameSize saltSize digestSize algorithm data
      next) := by
  refine .bind (checkUnsigned_malformedAtWorst _ _ (by decide)) fun nameSize _ => ?_
  refine .bind (checkUnsigned_malformedAtWorst _ _ (by decide)) fun saltSize _ => ?_
  refine .bind (checkUnsigned_malformedAtWorst _ _ (by decide)) fun digestSize _ => ?_
  refine .bind (decodeHashName_malformedAtWorst _) fun _ _ => ?_
  refine .bind (takePart_malformedAtWorst _ nameSize _) fun name _ => ?_
  refine .bind (decodeText_malformedAtWorst _ name.1) fun _ _ => ?_
  refine .bind (takePart_malformedAtWorst _ saltSize name.2) fun salt _ => ?_
  exact .bind (takePart_malformedAtWorst _ digestSize salt.2) fun _ _ => hnext _ _ _ _

/-- A hash tree is read, or its record is malformed. -/
theorem decodeHashtree_malformedAtWorst (data : Bytes) :
    MalformedAtWorst (decodeHashtree data) := by
  rw [decodeHashtree_eq_digestParts]
  refine .bind (openRecord_malformedAtWorst .hashtree data) fun opened _ => ?_
  refine .bind (Layout.unpack_malformedAtWorst hashtreeLayout opened.2) fun row _ => ?_
  refine .bind (checkExtents_malformedAtWorst _) fun _ _ => ?_
  exact digestParts_malformedAtWorst fun _ _ _ _ => .ok _

/-- A hash is read, or its record is malformed. -/
theorem decodeHash_malformedAtWorst (data : Bytes) : MalformedAtWorst (decodeHash data) := by
  rw [decodeHash_eq_digestParts]
  refine .bind (openRecord_malformedAtWorst .hash data) fun opened _ => ?_
  refine .bind (Layout.unpack_malformedAtWorst hashLayout opened.2) fun row _ => ?_
  refine .bind (checkExtents_malformedAtWorst _) fun _ _ => ?_
  exact digestParts_malformedAtWorst fun _ _ _ _ => .ok _

/-- A kernel command line is read, or its record is malformed. -/
theorem decodeCmdline_malformedAtWorst (data : Bytes) :
    MalformedAtWorst (decodeCmdline data) := by
  refine .bind (openRecord_malformedAtWorst .cmdline data) fun opened _ => ?_
  refine .bind (Layout.unpack_malformedAtWorst cmdlineLayout opened.2) fun row _ => ?_
  refine .bind (checkUnsigned_malformedAtWorst row.2.1 _ (by decide)) fun size _ => ?_
  refine .bind (takePart_malformedAtWorst _ size _) fun text _ => ?_
  exact .bind (decodeText_malformedAtWorst _ text.1) fun _ _ => .ok _

theorem decodeKey_malformedAtWorst (data : Bytes) : MalformedAtWorst (decodeKey data) :=
  .choice (fun _ => .ok _) fun _ => .map (PublicKey.decode_malformedAtWorst data) _

/-- A chained partition is read, or its record is malformed. -/
theorem decodeChain_malformedAtWorst (data : Bytes) : MalformedAtWorst (decodeChain data) := by
  refine .bind (openRecord_malformedAtWorst .chain data) fun opened _ => ?_
  refine .bind (Layout.unpack_malformedAtWorst chainLayout opened.2) fun row _ => ?_
  refine .bind (checkUnsigned_malformedAtWorst _ _ (by decide)) fun nameSize _ => ?_
  refine .bind (checkUnsigned_malformedAtWorst _ _ (by decide)) fun keySize _ => ?_
  refine .bind (takePart_malformedAtWorst _ nameSize _) fun name _ => ?_
  refine .bind (decodeText_malformedAtWorst _ name.1) fun _ _ => ?_
  refine .bind (takePart_malformedAtWorst _ keySize name.2) fun key _ => ?_
  exact .bind (decodeKey_malformedAtWorst key.1) fun _ _ => .ok _

/-- A record of any kind is read, or it is malformed. -/
theorem decodeAs_malformedAtWorst (kind : DescriptorKind) (data : Bytes) :
    MalformedAtWorst (decodeAs kind data) := by
  cases kind with
  | property => exact (decodeProperty_malformedAtWorst data).map _
  | hashtree => exact (decodeHashtree_malformedAtWorst data).map _
  | hash => exact (decodeHash_malformedAtWorst data).map _
  | cmdline => exact (decodeCmdline_malformedAtWorst data).map _
  | chain => exact (decodeChain_malformedAtWorst data).map _
  | unknown =>
    exact (Outcome.MalformedAtWorst.bind (openRecord_malformedAtWorst .unknown data)
      fun _ _ => .ok _).map _

theorem decode_malformedAtWorst (data : Bytes) : MalformedAtWorst (decode data) :=
  .bind (Layout.unpack_malformedAtWorst preamble data) fun _ _ => decodeAs_malformedAtWorst _ data

theorem recordSize_malformedAtWorst (data : Bytes) : MalformedAtWorst (recordSize data) := by
  refine .bind (Layout.unpack_malformedAtWorst preamble data) fun row _ => ?_
  refine .bind (checkUnsigned_malformedAtWorst row.2.1 _ (by decide)) fun _ _ => ?_
  exact .guard fun _ => .ok _

/-- All records of a list are read, or one of them is malformed. -/
theorem decodeAll_malformedAtWorst (data : Bytes) : MalformedAtWorst (decodeAll data) := by
  fun_induction decodeAll data with
  | case1 data hshort => exact .ok []
  | case2 data hlong e hsize =>
    rcases recordSize_malformedAtWorst data with ⟨size, h⟩ | ⟨cause, h⟩
    · cases hsize.symm.trans h
    · obtain rfl := Except.error.inj (hsize.symm.trans h)
      exact .malformed cause
  | case3 data hlong size hsize ih =>
    exact .bind (decode_malformedAtWorst _) fun d _ => .bind ih fun _ _ => .ok _

end Descriptor

/-! ### Images -/

namespace Image

/-- A slice may lie outside of its block. -/
theorem sliceBlock_malformedAtWorst (block : Bytes) (offset size : Int) (slice : String) :
    MalformedAtWorst (sliceBlock block offset size slice) :=
  .choice (fun _ => .malformed _) fun _ => .ok _

theorem sliceBlock?_malformedAtWorst (block : Bytes) (offset size : Int) (slice : String) :
    MalformedAtWorst (sliceBlock? block offset size slice) :=
  .choice (fun _ => .ok _) fun _ => (sliceBlock_malformedAtWorst block offset size slice).map _

theorem embeddedKey_malformedAtWorst (b : Blocks) : MalformedAtWorst (embeddedKey b) := by
  refine .bind (sliceBlock?_malformedAtWorst _ _ _ _) fun blob _ => ?_
  cases blob with
  | none => exact .ok none
  | some blob => exact .bind (PublicKey.decode_malformedAtWorst blob) fun _ _ => .ok _

/-- The blocks of an image are read, or its data is malformed. -/
theorem blocks_malformedAtWorst (data : Bytes) : MalformedAtWorst (blocks data) := by
  refine .map ?_ Prod.fst
  by_cases hshort : data.length < Header.size
  · rw [@readBlocks_of_short ⟨data, 0⟩ hshort]
    exact .malformed .headerLength
  cases hheader : Header.decode (data.take Header.size) with
  | error e =>
    have hworst := Header.decode_malformedAtWorst (data.take Header.size)
    rw [hheader] at hworst
    rw [@readBlocks_of_decode_eq_error ⟨data, 0⟩ e (Nat.not_lt.1 hshort) hheader]
    obtain ⟨cause, hcause⟩ := hworst.resolve_left fun ⟨_, h⟩ => nomatch h
    obtain rfl := Except.error.inj hcause
    exact .malformed cause
  | ok header =>
    -- What is left behind the header is found to hold both blocks before they are read.
    by_cases hwhole : Whole header data
    · rw [@readBlocks_of_whole ⟨data, 0⟩ header hheader hwhole]
      exact .ok _
    · rw [@readBlocks_of_not_whole ⟨data, 0⟩ header (Nat.not_lt.1 hshort) hheader hwhole]
      exact .malformed .blocksPastEnd

/-- An image is read, or its data is malformed. -/
theorem parse_malformedAtWorst (suite : Suite) (data : Bytes) :
    MalformedAtWorst (parse suite data) := by
  rw [parse_eq]
  refine .bind (blocks_malformedAtWorst data) fun b _ => ?_
  refine .bind (Header.algorithm_malformedAtWorst b.header) fun _ _ => ?_
  refine .bind (embeddedKey_malformedAtWorst b) fun _ _ => ?_
  refine .bind (sliceBlock_malformedAtWorst _ _ _ _) fun _ _ => ?_
  refine .bind (sliceBlock?_malformedAtWorst _ _ _ _) fun _ _ => ?_
  refine .bind (sliceBlock?_malformedAtWorst _ _ _ _) fun _ _ => ?_
  refine .bind (sliceBlock_malformedAtWorst _ _ _ _) fun slice _ => ?_
  exact .bind (Descriptor.decodeAll_malformedAtWorst slice) fun _ _ => .ok _

end Image

/-- The image of a partition can always be looked for: malformed data counts as no image. -/
theorem PartitionInfo.exists_readImage (suite : Suite) (data : Bytes) :
    ∃ image, readImage suite data = .ok image := by
  unfold readImage
  cases probe data with
  | none => exact ⟨none, rfl⟩
  | some info =>
    rcases Image.parse_malformedAtWorst suite (data.drop info.vbmetaOffset.toNat) with
      ⟨image, hparse⟩ | ⟨cause, hparse⟩
    · exact ⟨some image, by simp only [Image.parseAt_eq, hparse]⟩
    · exact ⟨none, by simp only [Image.parseAt_eq, hparse]⟩

/-- **No reader fails other than on malformed data**: whatever the bytes, and at whatever position
of a file an image is looked for, within it or past its end. -/
theorem readers_malformedAtWorst (suite : Suite) (data : Bytes) (position : Nat) :
    MalformedAtWorst (Image.parse suite data) ∧
      MalformedAtWorst (Image.parseAt suite data position) ∧
      MalformedAtWorst (Descriptor.decodeAll data) ∧ MalformedAtWorst (Descriptor.decode data) ∧
      MalformedAtWorst (PublicKey.decode data) ∧ MalformedAtWorst (Footer.decode data) ∧
      MalformedAtWorst (Header.decode data) := by
  refine ⟨Image.parse_malformedAtWorst suite data, ?_, Descriptor.decodeAll_malformedAtWorst data,
    Descriptor.decode_malformedAtWorst data, PublicKey.decode_malformedAtWorst data,
    Footer.decode_malformedAtWorst data, Header.decode_malformedAtWorst data⟩
  rw [Image.parseAt_eq]
  exact Image.parse_malformedAtWorst suite (data.drop position)

end VerifiedBoot
