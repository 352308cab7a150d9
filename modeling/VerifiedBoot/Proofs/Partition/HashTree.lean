import VerifiedBoot.Proofs.Partition.Rewrite

/-!
# The hash tree of a partition that is written to

The hash tree of a partition may be kept behind the partition's own image, and a hashtree descriptor
says where. A request puts its blob behind the own image as well, and asks no descriptor what is
kept there. The descriptor is carried over, but of the tree only what stands behind the end of the
blob is left; the blob is what stands in the place of the rest.

* `Placed.slice_of_le`: a range behind the place of a part, after the part was placed.
* `Request.CarriesTree`: a request whose image says that a tree is kept in front of the footer.
* `tree_of_applyInPlace`: what becomes of the tree.
-/

namespace VerifiedBoot

namespace Bytes

theorem drop_slice (data : Bytes) (start size n : Nat) :
    (slice data start size).drop n = slice data (start + n) (size - n) := by
  rw [slice, List.drop_take, List.drop_drop, slice]

/-- A slice of a slice is a slice of the whole. -/
theorem slice_slice {start size inner n : Nat} (h : inner + n ≤ size) (data : Bytes) :
    slice (slice data start size) inner n = slice data (start + inner) n := by
  rw [slice, drop_slice, slice, List.take_take, Nat.min_eq_left (by omega), slice]

/-- What is between the placed part and the last one is as before. -/
theorem Placed.slice_between {data part last file : Bytes} {start position size : Nat}
    (h : Placed data start part last file) (hposition : start + part.length ≤ position)
    (hend : position + size + last.length ≤ data.length) :
    slice file position size = slice data position size := by
  obtain ⟨inner, rfl⟩ := Nat.exists_eq_add_of_le hposition
  have hinner : inner + size ≤ data.length - last.length - (start + part.length) := by omega
  rw [← slice_slice hinner, h.between, slice_slice hinner]

/-- A range that begins at the place of a part or behind it starts with what there is of the part,
and goes on with what was there before. -/
theorem Placed.slice_of_le {data part last file : Bytes} {start position size : Nat}
    (h : Placed data start part last file) (hposition : start ≤ position)
    (hend : position + size + last.length ≤ data.length) :
    slice file position size = (part.drop (position - start)).take size ++
      (slice data position size).drop ((part.drop (position - start)).take size).length := by
  have hcovered : ((part.drop (position - start)).take size).length =
      min size (part.length - (position - start)) := by
    rw [List.length_take, List.length_drop]
  -- Where the part ends, or the range begins if that is behind it.
  have hbehind : slice file (start + part.length + (position - start - part.length))
      (size - (part.length - (position - start))) =
        (slice data position size).drop (min size (part.length - (position - start))) := by
    rw [drop_slice]
    by_cases hall : size ≤ part.length - (position - start)
    · rw [Nat.min_eq_left hall, Nat.sub_eq_zero_of_le hall, Nat.sub_self, slice, slice,
        List.take_zero, List.take_zero]
    · rw [Nat.min_eq_right (by omega), h.slice_between (by omega) (by omega)]
      congr 1
      omega
  calc slice file position size
      = ((file.drop start).drop (position - start)).take size := by
        rw [List.drop_drop, Nat.add_sub_cancel' hposition, slice]
    _ = (part.drop (position - start)).take size ++
          slice file (start + part.length + (position - start - part.length))
            (size - (part.length - (position - start))) := by
        rw [h.drop_start, List.drop_append, List.take_append, List.drop_drop, List.length_drop,
          slice]
    _ = _ := by rw [hbehind, hcovered]

end Bytes

/-- Writing an image leaves its descriptors alone. -/
theorem Image.descriptors_of_encode {suite : Suite} {image written : Image}
    {signer : Option Rsa.Key} {alignment : Int} {blob : Bytes}
    (h : image.encode suite signer alignment = (.ok blob, written)) :
    written.descriptors = image.descriptors := by
  cases signer with
  | none =>
    change image.encodeUnsigned suite alignment = _ at h
    obtain ⟨_, _, -, -, -, rfl⟩ := encodeUnsigned_eq_ok h
    rfl
  | some signer =>
    change image.encodeSigned suite signer alignment = _ at h
    obtain ⟨_, _, _, -, -, -, -, rfl⟩ := encodeSigned_eq_ok h
    rfl

namespace HashtreeDescriptor

/-- The tree, in the contents of its partition. -/
def treeIn (tree : HashtreeDescriptor) (data : Bytes) : Bytes :=
  Bytes.slice data tree.treeOffset.toNat tree.treeSize.toNat

/-- The bytes of a blob that cover the tree, if the blob is put behind the partition's own image. -/
def covering (tree : HashtreeDescriptor) (footer : Footer) (blob : Bytes) : Bytes :=
  (blob.drop (tree.treeOffset - footer.originalImageSize).toNat).take tree.treeSize.toNat

theorem covering_eq_nil {tree : HashtreeDescriptor} {footer : Footer} {blob : Bytes}
    (h : footer.originalImageSize + blob.length ≤ tree.treeOffset) :
    tree.covering footer blob = [] := by
  rw [covering, List.drop_eq_nil_of_le (by omega), List.take_nil]

end HashtreeDescriptor

namespace Request

variable {suite : Suite} {request left : Request} {alignment : Int} {blob data : Bytes}
  {footer : Footer} {tree : HashtreeDescriptor} {w : Written}

/-- Whether the image of a request says that the hash tree of the partition is kept between the
partition's own image and the footer. -/
structure CarriesTree (request : Request) (data : Bytes) (footer : Footer)
    (tree : HashtreeDescriptor) : Prop where
  mem : .hashtree tree ∈ request.image.descriptors
  named : tree.partitionName = request.partition
  behind : footer.originalImageSize ≤ tree.treeOffset
  ends : tree.treeOffset + tree.treeSize ≤ (data.length : Int) - Footer.size

theorem descriptors_of_encode (h : request.encode suite alignment = (.ok blob, left)) :
    left.image.descriptors = request.image.descriptors := by
  obtain ⟨hblob, rfl⟩ := Prod.mk.inj h
  exact Image.descriptors_of_encode (Prod.ext hblob rfl)

/-- What is found in the place of a tree after blob and footer were placed. -/
theorem CarriesTree.treeIn_of_placed {encoded file : Bytes}
    (htree : request.CarriesTree data footer tree) (horiginal : 0 ≤ footer.originalImageSize)
    (hlength : encoded.length = Footer.size)
    (h : Bytes.Placed data footer.originalImageSize.toNat blob encoded file) :
    tree.treeIn file = tree.covering footer blob ++
      (tree.treeIn data).drop (tree.covering footer blob).length := by
  have hbehind := htree.behind
  have hends := htree.ends
  by_cases hempty : tree.treeSize ≤ 0
  · simp only [HashtreeDescriptor.treeIn, HashtreeDescriptor.covering, Bytes.slice,
      Int.toNat_of_nonpos hempty, List.take_zero, List.drop_nil, List.append_nil]
  · have hskip : (tree.treeOffset - footer.originalImageSize).toNat =
        tree.treeOffset.toNat - footer.originalImageSize.toNat := by omega
    rw [HashtreeDescriptor.treeIn, HashtreeDescriptor.treeIn, HashtreeDescriptor.covering, hskip]
    exact h.slice_of_le (by omega) (by omega)

/-- **What becomes of a hash tree that is carried over.** After a successful writing the image still
has the descriptor of the tree. Of the tree itself all that stands behind the end of the blob is as
before, and the blob stands in the place of the rest: nothing is lost if the blob ends where the
tree begins or before, and in general exactly if the tree began with the bytes that cover it. -/
theorem tree_of_applyInPlace {suite : Suite} {request : Request} {footer : Footer} {data : Bytes}
    {alignment : Int} {tree : HashtreeDescriptor} {w : Written}
    (hfooter : request.footer = some footer) (htree : request.CarriesTree data footer tree)
    (h : request.applyInPlace suite data alignment = (.ok (), w)) :
    ∃ blob left, request.encode suite alignment = (.ok blob, left) ∧
      .hashtree tree ∈ w.request.image.descriptors ∧
      tree.treeIn w.file = tree.covering footer blob ++
        (tree.treeIn data).drop (tree.covering footer blob).length ∧
      (tree.treeIn w.file = tree.treeIn data ↔ tree.covering footer blob <+: tree.treeIn data) ∧
      (footer.originalImageSize + blob.length ≤ tree.treeOffset →
        tree.treeIn w.file = tree.treeIn data) := by
  obtain ⟨blob, left, encoded, hencode, horiginal, hencoded, hrequest, hplaced⟩ :=
    applyInPlace_of_footed hfooter h
  have hkept := htree.treeIn_of_placed horiginal (Footer.length_of_encode hencoded) hplaced
  refine ⟨blob, left, hencode, ?_, hkept, ?_, fun hapart => ?_⟩
  · rw [hrequest, descriptors_of_encode hencode]
    exact htree.mem
  · have hwhole := List.take_append_drop (tree.covering footer blob).length (tree.treeIn data)
    -- The bytes behind the blob are the same on both sides, so the trees are the same if what
    -- covers them is what was there.
    rw [hkept, List.prefix_iff_eq_take]
    nth_rewrite 2 [← hwhole]
    exact List.append_left_inj _
  · rw [hkept, HashtreeDescriptor.covering_eq_nil hapart, List.length_nil, List.drop_zero,
      List.nil_append]

/-- A tree of 512 bytes some bytes behind the own image of a partition, which has sixteen bytes. -/
def smallTree (gap : Nat) : HashtreeDescriptor :=
  ⟨1, 16, 16 + gap, 512, 4096, 4096, 0, 0, 0, "sha256", "p", [], [], 0, Bytes.zeros 60⟩

/-- The footer of the partition, before a blob is put there. -/
def treeFooter : Footer :=
  { Footer.empty with originalImageSize := 16 }

/-- A request with the descriptor of the tree alone. -/
def treeRequest (gap : Nat) : Request where
  partition := "p"
  image := { Image.empty with descriptors := [.hashtree (smallTree gap)] }
  footer := some treeFooter
  signer := none

/-- The partition. -/
def treeData (gap : Nat) : Bytes :=
  Bytes.zeros (16 + gap) ++ List.replicate 512 7 ++ treeFooter.encode.toOption.getD []

/-- The request carries the tree. -/
theorem carriesTree_treeRequest (gap : Nat) :
    (treeRequest gap).CarriesTree (treeData gap) treeFooter (smallTree gap) := by
  refine ⟨List.mem_cons_self, rfl, ?_, ?_⟩
  · show (16 : Int) ≤ 16 + gap
    omega
  · have hfooter : (treeFooter.encode.toOption.getD []).length = Footer.size := by decide +kernel
    rw [treeData, List.length_append, List.length_append, Bytes.length_zeros,
      List.length_replicate, hfooter]
    show (16 : Int) + gap + 512 ≤ _
    omega

/-- A blob of 448 bytes is written in front of a tree that begins just behind it, which stays. -/
theorem tree_of_applyInPlace_treeRequest :
    (treeRequest 448).footer = some treeFooter ∧
      (treeRequest 448).CarriesTree (treeData 448) treeFooter (smallTree 448) ∧
      ∃ w, (treeRequest 448).applyInPlace .standard (treeData 448) 64 = (.ok (), w) ∧
        (smallTree 448).treeIn w.file = (smallTree 448).treeIn (treeData 448) := by
  have htree := carriesTree_treeRequest 448
  have hok : ((treeRequest 448).applyInPlace .standard (treeData 448) 64).1.toBool = true := by
    decide +kernel
  obtain ⟨⟨⟩, w, hwritten⟩ := Outcome.exists_of_toBool hok
  obtain ⟨blob, left, hencode, -, -, -, hapart⟩ := tree_of_applyInPlace rfl htree hwritten
  have hblob : ((treeRequest 448).encode .standard 64).1.toOption.map List.length = some 448 := by
    decide +kernel
  rw [hencode] at hblob
  obtain hlength : blob.length = 448 := Option.some.inj hblob
  refine ⟨rfl, htree, w, hwritten, hapart ?_⟩
  rw [hlength]
  decide

/-- In a partition with a footer, whose tree begins right behind the own image, the blob is written
over the tree. -/
theorem exists_tree_overwritten : ∃ w,
    (PartitionInfo.probe (treeData 0)).bind (·.footer) = some treeFooter ∧
      (treeRequest 0).footer = some treeFooter ∧
      (treeRequest 0).CarriesTree (treeData 0) treeFooter (smallTree 0) ∧
      (treeRequest 0).applyInPlace .standard (treeData 0) 64 = (.ok (), w) ∧
      (smallTree 0).treeIn w.file ≠ (smallTree 0).treeIn (treeData 0) := by
  have hok : ((treeRequest 0).applyInPlace .standard (treeData 0) 64).1.toBool = true := by
    decide +kernel
  have hdiffers : (smallTree 0).treeIn
      ((treeRequest 0).applyInPlace .standard (treeData 0) 64).2.file ≠
        (smallTree 0).treeIn (treeData 0) := by
    decide +kernel
  obtain ⟨⟨⟩, w, hwritten⟩ := Outcome.exists_of_toBool hok
  rw [hwritten] at hdiffers
  exact ⟨w, by decide +kernel, rfl, carriesTree_treeRequest 0, hwritten, hdiffers⟩

end Request

end VerifiedBoot
