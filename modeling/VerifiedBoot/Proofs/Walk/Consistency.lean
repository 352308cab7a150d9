import VerifiedBoot.Proofs.Image.RoundTrip
import VerifiedBoot.Proofs.Partition.Probe
import VerifiedBoot.Proofs.Walk.Measure
import VerifiedBoot.Proofs.Walk.Reach

/-!
# A clean verification is a consistent chain

A chain of trust is consistent if every partition that chain descriptors lead to has a readable
image, if these images are signed where they have to be and with the keys that vouch for them, and
if their hash descriptors say what is true of the partitions that they name. A verification that
returns is free of issues exactly then.
-/

namespace VerifiedBoot

/-- Whether a hash descriptor says what is true of a partition: it names a digest that is known, the
partition is at least as long as it says, and so many bytes have the digest that it gives. -/
def HashDescriptor.Matches (v : Verifier) (data : Bytes) (d : HashDescriptor) : Prop :=
  ∃ digest, v.suite.named d.hashAlgorithm = .plain digest ∧ d.imageSize ≤ data.length ∧
    d.digest = digest (d.salt ++ Measurement.payload v.chunkSize data d.imageSize)

/-- Whether a hash is the last one that an image keeps of a partition. -/
def Image.LastHash (image : Image) (name : String) (index : Nat) (e : HashDescriptor) : Prop :=
  ∃ before after, image.descriptors = before ++ .hash e :: after ∧ before.length = index ∧
    e.partitionName = name ∧ ∀ other, .hash other ∈ after → other.partitionName ≠ name

namespace Verifier

/-- The hash that counts is the last one. -/
theorem lastHash?_eq_some {image : Image} {name : String} {index : Nat} {e : HashDescriptor} :
    lastHash? image name = some (index, e) ↔ image.LastHash name index e := by
  unfold lastHash?
  rw [List.findSome?_eq_some_iff]
  constructor
  · rintro ⟨after, ⟨d, i⟩, before, hsplit, hd, hafter⟩
    -- The search goes from the end, so what was passed over is what comes after.
    have hzip := congrArg List.reverse hsplit
    rw [List.reverse_reverse, List.reverse_append, List.reverse_cons, List.append_assoc,
      List.singleton_append] at hzip
    obtain ⟨first, rest, hdescriptors, -, hrest⟩ := List.zipIdx_eq_append_iff.1 hzip
    obtain ⟨d', last, rfl, hhead, hlast⟩ := List.zipIdx_eq_cons_iff.1 hrest.symm
    obtain ⟨rfl, rfl⟩ := Prod.mk.inj hhead
    simp only at hd
    split at hd
    · next content =>
      split at hd
      · next hname =>
        obtain ⟨rfl, rfl⟩ := Prod.mk.inj (Option.some.inj hd)
        refine ⟨first, last, hdescriptors, (Nat.zero_add _).symm, hname, fun other hother => ?_⟩
        rw [← List.zipIdx_map_fst (0 + first.length + 1) last, ← hlast, List.mem_map] at hother
        obtain ⟨⟨_, j⟩, hmem, rfl⟩ := hother
        have hnone := hafter _ (List.mem_reverse.1 hmem)
        simp only at hnone
        intro heq
        rw [if_pos heq] at hnone
        cases hnone
      · cases hd
    · cases hd
  · rintro ⟨first, last, hdescriptors, rfl, hname, hother⟩
    -- Seen from the end, what comes after is passed over, and the rest does not matter.
    refine ⟨(last.zipIdx (first.length + 1)).reverse, (.hash e, first.length),
      first.zipIdx.reverse, ?_, if_pos hname, ?_⟩
    · rw [hdescriptors, List.zipIdx_append, List.zipIdx_cons, List.reverse_append,
        List.reverse_cons, List.append_assoc, List.singleton_append, Nat.zero_add]
    · rintro ⟨d, j⟩ hmem
      simp only
      split
      · next content =>
        have hcontent : .hash content ∈ last := by
          rw [← List.zipIdx_map_fst (first.length + 1) last]
          exact List.mem_map.2 ⟨_, List.mem_reverse.1 hmem, rfl⟩
        exact if_neg (hother content hcontent)
      · rfl

/-- Whether a hash descriptor is true. If the partition that it names has a footer, it speaks of the
partition's own image, and the last hash that the partition keeps of itself is true as well. -/
def HashHolds (v : Verifier) (store : Store) (d : HashDescriptor) : Prop :=
  ∃ data, store.open? d.partitionName = .ok data ∧ d.Matches v data ∧
    ∀ footer, Footed data footer → d.imageSize = footer.originalImageSize ∧
      ∃ image index e, store.image v.suite d.partitionName = .ok (some image) ∧
        image.LastHash d.partitionName index e ∧ e.imageSize = footer.originalImageSize ∧
        e.Matches v data

/-- Whether a chain descriptor vouches for the image that is there. -/
def ChainHolds (v : Verifier) (store : Store) (d : ChainDescriptor) : Prop :=
  ∃ target key, store.image v.suite d.partitionName = .ok (some target) ∧
    target.signatureValid = true ∧ target.publicKey = some key ∧ d.publicKey = some key

/-- Whether everything that chain descriptors lead to from a root is as it should be. -/
structure Consistent (v : Verifier) (store : Store) (root : String) : Prop where
  /-- Every partition has a readable image. -/
  readable : ∀ name, store.Reach v.suite root name →
    ∃ image, store.image v.suite name = .ok (some image)
  /-- An image that embeds a key is signed with it. -/
  signed : ∀ name image, store.Reach v.suite root name →
    store.image v.suite name = .ok (some image) → image.publicKey.isSome →
    image.signatureValid = true
  chained : ∀ name image d, store.Reach v.suite root name →
    store.image v.suite name = .ok (some image) → .chain d ∈ image.descriptors →
    v.ChainHolds store d
  hashed : ∀ name image d, store.Reach v.suite root name →
    store.image v.suite name = .ok (some image) → .hash d ∈ image.descriptors →
    v.HashHolds store d

variable {v : Verifier} {store : Store}

/-- A measurement finds no issue if it agrees with the descriptor. -/
theorem measureFinds_clean {holder : String} {index : Nat} {d : HashDescriptor}
    {m : Option Measurement} :
    (∀ issue, ¬MeasureFinds holder index d m (.issue issue)) ↔
      ∃ taken, m = some taken ∧ taken.agrees d = true := by
  constructor
  · intro h
    cases m with
    | none => exact absurd .unknown (h _)
    | some taken =>
      refine ⟨taken, rfl, ?_⟩
      rw [← Bool.not_eq_false]
      exact fun hagrees => h _ (.stale hagrees)
  · rintro ⟨taken, rfl, hagrees⟩ issue hfinds
    cases hfinds with
    | stale hstale => exact absurd (hagrees.symm.trans hstale) (by simp)

/-- A measurement over `size` bytes agrees with a descriptor that gives this size and matches the
data. -/
theorem measureFinds_clean_iff {holder : String} {index : Nat} {d : HashDescriptor}
    {m : Option Measurement} {data : Bytes} {size : Int}
    (hdata : store.open? d.partitionName = .ok data)
    (hm : Measurement.take v.suite store v.chunkSize d size = .ok m)
    (hsize : size = d.imageSize ∨ size ≤ data.length) :
    (∀ issue, ¬MeasureFinds holder index d m (.issue issue)) ↔
      d.imageSize = size ∧ d.Matches v data := by
  rw [measureFinds_clean]
  rcases Measurement.take_eq_ok hm with ⟨hnamed, rfl⟩ | ⟨digest, data', hnamed, hdata', rfl⟩
  · constructor
    · rintro ⟨taken, h, -⟩
      cases h
    · rintro ⟨-, digest, hplain, -⟩
      exact absurd (hnamed.symm.trans hplain) (by simp)
  · obtain rfl := Outcome.ok_unique hdata hdata'
    constructor
    · rintro ⟨taken, htaken, hagrees⟩
      obtain rfl := Option.some.inj htaken
      obtain ⟨hmin, hdigest⟩ := Measurement.agrees_iff.1 hagrees
      change min size (data.length : Int) = d.imageSize at hmin
      -- A measurement is of `min size length` bytes. That the descriptor agrees on this number says
      -- it declares `size` itself only because `size` is its own size or one that the data can
      -- fill.
      have himage : d.imageSize = size := by omega
      refine ⟨himage, digest, hnamed, by omega, ?_⟩
      rw [himage]
      exact hdigest.symm
    · rintro ⟨himage, digest', hplain, hlength, hdigest⟩
      obtain rfl := NamedDigest.plain.inj (hnamed.symm.trans hplain)
      refine ⟨_, rfl, Measurement.agrees_iff.2 ⟨?_, ?_⟩⟩
      · change min size (data.length : Int) = d.imageSize
        omega
      · rw [hdigest, himage]
        rfl

/-- What a measurable descriptor comes to: a partition, and measurements of it. -/
theorem exists_measurable {p : Pending} {d : HashDescriptor} {g : Findings}
    (hp : p.descriptor = .hash d) (h : v.inspect store p = .ok g) :
    ∃ data, store.open? d.partitionName = .ok data ∧
      store.info d.partitionName = .ok (PartitionInfo.probe data) ∧
      Measurable v store d (PartitionInfo.probe data) := by
  obtain ⟨info, hinfo, hmeasurable⟩ := measurable_of_inspect hp h
  obtain ⟨data, hdata, hprobe⟩ := Outcome.bind_eq_ok.1 hinfo
  obtain rfl := Except.ok.inj hprobe
  exact ⟨data, hdata, hinfo, hmeasurable⟩

/-- The last hash of a partition names the partition. -/
theorem partitionName_of_lastHash {image : Image} {name : String} {index : Nat}
    {e : HashDescriptor} (h : image.LastHash name index e) : e.partitionName = name := by
  obtain ⟨-, -, -, -, hname, -⟩ := h
  exact hname

/-- Without a footer, a hash finds no issue if it is true of the whole partition. -/
theorem hashFinds_clean_of_bare {p : Pending} {d : HashDescriptor} {data : Bytes}
    {m : Option Measurement} (hdata : store.open? d.partitionName = .ok data)
    (hinfo : store.info d.partitionName = .ok (PartitionInfo.probe data))
    (hfooter : (PartitionInfo.probe data).bind (·.footer) = none)
    (hm : Measurement.take v.suite store v.chunkSize d d.imageSize = .ok m) :
    (∀ issue, ¬HashFinds v store p d (.issue issue)) ↔ v.HashHolds store d := by
  simp only [hashFinds_of_bare hinfo hfooter hm]
  rw [measureFinds_clean_iff hdata hm (.inl rfl)]
  constructor
  · rintro ⟨-, hmatches⟩
    refine ⟨data, hdata, hmatches, fun footer hfooted => ?_⟩
    exact absurd (hfooter.symm.trans (PartitionInfo.probe_eq_footer.2 hfooted)) (by simp)
  · rintro ⟨data', hdata', hmatches, -⟩
    obtain rfl := Outcome.ok_unique hdata hdata'
    exact ⟨rfl, hmatches⟩

/-- With a footer, a hash that finds no issue is true of the partition's own image, and so is the
last hash in the image there. -/
theorem hashHolds_of_clean {p : Pending} {d : HashDescriptor} {data : Bytes} {footer : Footer}
    (hdata : store.open? d.partitionName = .ok data)
    (hinfo : store.info d.partitionName = .ok (PartitionInfo.probe data))
    (hfooter : (PartitionInfo.probe data).bind (·.footer) = some footer)
    (hmeasurable : Measurable v store d (PartitionInfo.probe data))
    (hclean : ∀ issue, ¬HashFinds v store p d (.issue issue)) : v.HashHolds store d := by
  obtain ⟨image, himage, hall⟩ := (measurable_of_footed hfooter).1 hmeasurable
  have hsize := PartitionInfo.originalImageSize_le (PartitionInfo.probe_eq_footer.1 hfooter)
  -- A missing image or a missing hash would be an issue, so both hashes were measured.
  cases image with
  | none => exact absurd (.unreadable hinfo hfooter himage) (hclean _)
  | some image =>
    cases hlast : lastHash? image d.partitionName with
    | none => exact absurd (.missing hinfo hfooter himage hlast) (hclean _)
    | some found =>
      obtain ⟨index, e⟩ := found
      obtain ⟨m, hm, hsome⟩ := hall image index e rfl hlast
      have hinner : ∀ issue, ¬MeasureFinds d.partitionName index e m (.issue issue) :=
        fun issue hfinds => hclean issue (.embedded hinfo hfooter himage hlast hm hfinds)
      obtain ⟨taken, rfl, -⟩ := measureFinds_clean.1 hinner
      obtain ⟨m', hm'⟩ := hsome rfl
      have houter : ∀ issue, ¬MeasureFinds p.holder p.index d m' (.issue issue) :=
        fun issue hfinds => hclean issue (.outer hinfo hfooter himage hlast hm hm' hfinds)
      have hlastHash := lastHash?_eq_some.1 hlast
      obtain ⟨hinnerSize, hinnerMatches⟩ := (measureFinds_clean_iff
        ((partitionName_of_lastHash hlastHash).symm ▸ hdata) hm (.inr hsize)).1 hinner
      obtain ⟨houterSize, houterMatches⟩ :=
        (measureFinds_clean_iff hdata hm' (.inr hsize)).1 houter
      refine ⟨data, hdata, houterMatches, fun footer' hfooted' => ?_⟩
      have hprobe := PartitionInfo.probe_eq_footer.2 hfooted'
      obtain rfl := Option.some.inj (hfooter.symm.trans hprobe)
      exact ⟨houterSize, image, index, e, himage, hlastHash, hinnerSize, hinnerMatches⟩

/-- With a footer, a true hash finds no issue. -/
theorem HashHolds.hashFinds_clean {p : Pending} {d : HashDescriptor} {data : Bytes}
    {footer : Footer} (h : v.HashHolds store d) (hdata : store.open? d.partitionName = .ok data)
    (hinfo : store.info d.partitionName = .ok (PartitionInfo.probe data))
    (hfooter : (PartitionInfo.probe data).bind (·.footer) = some footer)
    (hmeasurable : Measurable v store d (PartitionInfo.probe data)) (issue : Issue) :
    ¬HashFinds v store p d (.issue issue) := by
  obtain ⟨image, himage, hall⟩ := (measurable_of_footed hfooter).1 hmeasurable
  have hfooted := PartitionInfo.probe_eq_footer.1 hfooter
  have hsize := PartitionInfo.originalImageSize_le hfooted
  obtain ⟨data', hdata', hmatches, hembedded⟩ := h
  obtain rfl := Outcome.ok_unique hdata hdata'
  obtain ⟨houterSize, i, index, e, himage', hlastHash, hinnerSize, hinnerMatches⟩ :=
    hembedded footer hfooted
  obtain rfl := Outcome.ok_unique himage himage'
  have hlast := lastHash?_eq_some.2 hlastHash
  obtain ⟨m, hm, -⟩ := hall i index e rfl hlast
  -- The embedded descriptor is measured over the original size, which the data covers; the outer
  -- one after it, over the same bytes.
  have hinner := (@measureFinds_clean_iff v store d.partitionName index e m data _
    ((partitionName_of_lastHash hlastHash).symm ▸ hdata) hm (.inr hsize)).2
      ⟨hinnerSize, hinnerMatches⟩
  intro hfinds
  rcases (hashFinds_of_embedded hinfo hfooter himage hlast hm _).1 hfinds
    with hloaded | hfinds | ⟨-, m', hm', hfinds⟩
  · cases hloaded
  · exact hinner issue hfinds
  · exact (measureFinds_clean_iff hdata hm' (.inr hsize)).2 ⟨houterSize, hmatches⟩ issue hfinds

/-- The check of a hash descriptor finds no issue if the descriptor is true. -/
theorem hashFinds_clean_iff {p : Pending} {d : HashDescriptor} {g : Findings}
    (hp : p.descriptor = .hash d) (h : v.inspect store p = .ok g) :
    (∀ issue, ¬HashFinds v store p d (.issue issue)) ↔ v.HashHolds store d := by
  obtain ⟨data, hdata, hinfo, hmeasurable⟩ := exists_measurable hp h
  cases hfooter : (PartitionInfo.probe data).bind (·.footer) with
  | none =>
    obtain ⟨m, hm⟩ := (measurable_of_bare hfooter).1 hmeasurable
    exact hashFinds_clean_of_bare hdata hinfo hfooter hm
  | some footer =>
    exact ⟨hashHolds_of_clean hdata hinfo hfooter hmeasurable,
      fun hholds => hholds.hashFinds_clean hdata hinfo hfooter hmeasurable⟩

/-- A signature counts as valid only in an image that embeds a key. -/
theorem publicKey_of_signatureValid {suite : Suite} {name : String} {image : Image}
    (h : store.image suite name = .ok (some image)) (hvalid : image.signatureValid = true) :
    ∃ key, image.publicKey = some key := by
  obtain ⟨data, -, hread⟩ := Store.image_eq_ok.1 h
  obtain ⟨info, -, hparse⟩ := PartitionInfo.readImage_eq_some.1 hread
  exact Image.publicKey_of_signatureValid hparse hvalid

/-- The check of a chain descriptor finds no issue if the descriptor vouches for the image. -/
theorem chainFinds_clean_iff {p : Pending} {d : ChainDescriptor} {image : Option Image}
    (himage : store.image v.suite d.partitionName = .ok image) :
    (∀ issue, ¬ChainFinds p d image (.issue issue)) ↔ v.ChainHolds store d := by
  constructor
  · intro hclean
    cases image with
    | none => exact absurd .unreadable (hclean _)
    | some target =>
      have hvalid : target.signatureValid = true := by
        rw [← Bool.not_eq_false]
        exact fun hinvalid => hclean _ (.unsigned hinvalid)
      obtain ⟨key, hkey⟩ := publicKey_of_signatureValid himage hvalid
      -- A signature that holds comes with a key, so the comparison with the declared key is made.
      have hsame : target.publicKey = d.publicKey := by
        by_contra hother
        exact hclean _ (.otherKey (by rw [hkey]; rfl) hother)
      exact ⟨target, key, himage, hvalid, hkey, hsame.symm.trans hkey⟩
  · rintro ⟨target, key, himage', hvalid, hkey, hdeclared⟩ issue hfinds
    obtain rfl := Outcome.ok_unique himage himage'
    cases hfinds with
    | unsigned hinvalid => exact absurd (hvalid.symm.trans hinvalid) (by simp)
    | otherKey _ hother => exact hother (hkey.trans hdeclared.symm)

/-- Whether a descriptor is as it should be. -/
def DescriptorHolds (v : Verifier) (store : Store) : Descriptor → Prop
  | .hash d => v.HashHolds store d
  | .chain d => v.ChainHolds store d
  | _ => True

/-- The check of a descriptor finds no issue if the descriptor is as it should be. -/
theorem inspect_clean_iff {p : Pending} {g : Findings} (h : v.inspect store p = .ok g) :
    (∀ issue, ¬g.Holds (.issue issue)) ↔ v.DescriptorHolds store p.descriptor := by
  cases hp : p.descriptor with
  -- The reference that a check leaves behind is a finding too, but no issue.
  | hash d =>
    rw [DescriptorHolds, ← hashFinds_clean_iff hp h]
    refine forall_congr' fun issue => not_congr ?_
    rw [holds_inspect_hash hp h]
    exact ⟨fun hholds => hholds.resolve_left (by simp), .inr⟩
  | chain d =>
    obtain ⟨target, htarget, hholds⟩ := holds_inspect_chain hp h
    rw [DescriptorHolds, ← @chainFinds_clean_iff v store p d target htarget]
    refine forall_congr' fun issue => not_congr ?_
    rw [hholds]
    exact ⟨fun hfinds => hfinds.resolve_left (by simp), .inr⟩
  | hashtree _ | property _ | cmdline _ | unknown _ =>
    have htarget : p.descriptor.target? = none := by
      rw [hp]
      rfl
    exact ⟨fun _ => trivial, fun _ issue => not_holds_inspect htarget h _⟩

/-- There is nothing to object to from a root if its own image is readable and signed, and every
descriptor that is visited is as it should be. -/
theorem finds_clean_iff {root : String} {image : Option Image}
    (himage : store.image v.suite root = .ok image)
    (hinspected : ∀ p, v.Visits store root p → ∃ g, v.inspect store p = .ok g) :
    (∀ issue, ¬v.Finds store root (.issue issue)) ↔
      (∃ i, image = some i ∧ (i.publicKey.isSome → i.signatureValid = true)) ∧
        ∀ p, v.Visits store root p → v.DescriptorHolds store p.descriptor := by
  constructor
  · intro hclean
    refine ⟨?_, fun p hvisits => ?_⟩
    · cases image with
      | none => exact absurd (.enter himage .unreadable) (hclean _)
      | some i =>
        refine ⟨i, rfl, fun hkey => ?_⟩
        rw [← Bool.not_eq_false]
        exact fun hinvalid => hclean _ (.enter himage (.unsigned hkey hinvalid))
    · obtain ⟨g, hg⟩ := hinspected p hvisits
      exact (inspect_clean_iff hg).1 fun issue hholds => hclean issue (.visit hvisits hg hholds)
  · rintro ⟨⟨i, rfl, hsigned⟩, hdescriptors⟩ issue hfinds
    cases hfinds with
    | enter himage' hfinds =>
      obtain rfl := Outcome.ok_unique himage himage'
      cases hfinds with
      | unsigned hkey hinvalid => exact absurd ((hsigned hkey).symm.trans hinvalid) (by simp)
    | visit hvisits hg hholds =>
      exact (inspect_clean_iff hg).2 (hdescriptors _ hvisits) issue hholds

/-- What is visited are the descriptors of the images that chain descriptors lead to. -/
theorem forall_visits_iff {root : String} {P : Descriptor → Prop} :
    (∀ p, v.Visits store root p → P p.descriptor) ↔
      ∀ name image d, store.Reach v.suite root name →
        store.image v.suite name = .ok (some image) → d ∈ image.descriptors → P d := by
  constructor
  · intro h name image d hreach himage hd
    obtain ⟨index, hindex⟩ := List.getElem?_of_mem hd
    have hmem : (⟨name, index, d⟩ : Pending) ∈ Pending.ofImage name image :=
      Pending.mem_ofImage.2 ⟨rfl, hindex⟩
    exact h _ ⟨name, image, hreach, himage, hmem⟩
  · rintro h p ⟨name, image, hreach, himage, hmem⟩
    exact h name image _ hreach himage (List.mem_of_getElem? (Pending.mem_ofImage.1 hmem).2)

/-- In a consistent chain every descriptor is as it should be. -/
theorem Consistent.descriptorHolds {root name : String} {image : Image} {d : Descriptor}
    (h : v.Consistent store root) (hreach : store.Reach v.suite root name)
    (himage : store.image v.suite name = .ok (some image)) (hd : d ∈ image.descriptors) :
    v.DescriptorHolds store d := by
  cases d with
  | hash d => exact h.hashed name image d hreach himage hd
  | chain d => exact h.chained name image d hreach himage hd
  | hashtree _ | property _ | cmdline _ | unknown _ => trivial

/-- There is nothing to object to from a root exactly if the chain is consistent. -/
theorem consistent_iff {root : String} {image : Option Image}
    (himage : store.image v.suite root = .ok image)
    (hinspected : ∀ p, v.Visits store root p → ∃ g, v.inspect store p = .ok g) :
    (∀ issue, ¬v.Finds store root (.issue issue)) ↔ v.Consistent store root := by
  -- Every image but the root's is reached by a chain descriptor, whose own condition says that its
  -- image is readable and signed. So what is asked of the descriptors is what is asked of the
  -- images.
  rw [finds_clean_iff himage hinspected, forall_visits_iff]
  constructor
  · rintro ⟨⟨i, rfl, hsigned⟩, hdescriptors⟩
    refine ⟨fun name hreach => ?_, fun name i' hreach hi' hkey => ?_,
      fun name holder d hreach hholder hd => hdescriptors name holder _ hreach hholder hd,
      fun name holder d hreach hholder hd => hdescriptors name holder _ hreach hholder hd⟩
    · cases hreach with
      | root => exact ⟨i, himage⟩
      | chain hreach hholder hd =>
        obtain ⟨target, -, htarget, -⟩ := hdescriptors _ _ _ hreach hholder hd
        exact ⟨target, htarget⟩
    · cases hreach with
      | root =>
        obtain rfl := Outcome.ok_some_unique himage hi'
        exact hsigned hkey
      | chain hreach hholder hd =>
        obtain ⟨target, -, htarget, hvalid, -⟩ := hdescriptors _ _ _ hreach hholder hd
        obtain rfl := Outcome.ok_some_unique hi' htarget
        exact hvalid
  · intro hconsistent
    obtain ⟨i, hi⟩ := hconsistent.readable root .root
    obtain rfl := Outcome.ok_unique himage hi
    exact ⟨⟨i, rfl, hconsistent.signed root i .root hi⟩, fun _ _ _ => hconsistent.descriptorHolds⟩

theorem issues_eq_nil {root : String} {found : Verification}
    (hissues : ∀ issue, issue ∈ found.issues ↔ v.Finds store root (.issue issue)) :
    found.issues = [] ↔ ∀ issue, ¬v.Finds store root (.issue issue) := by
  rw [List.eq_nil_iff_forall_not_mem]
  exact forall_congr' fun issue => not_congr (hissues issue)

/-- A partition of which a hash is true can be measured for it, over any size. -/
theorem exists_take_of_matches {d : HashDescriptor} {data : Bytes} (hchunk : 1 ≤ v.chunkSize)
    (hdata : store.open? d.partitionName = .ok data) (h : d.Matches v data) (size : Int) :
    ∃ m, Measurement.take v.suite store v.chunkSize d size = .ok m := by
  obtain ⟨digest, hnamed, -⟩ := h
  refine Measurement.exists_take hchunk hdata ?_ size
  rw [hnamed]
  exact nofun

/-- What a true hash descriptor needs can be measured. -/
theorem HashHolds.exists_measurable {d : HashDescriptor} (hchunk : 1 ≤ v.chunkSize)
    (h : v.HashHolds store d) :
    ∃ info, store.info d.partitionName = .ok info ∧ Measurable v store d info := by
  obtain ⟨data, hdata, hmatches, hembedded⟩ := h
  refine ⟨PartitionInfo.probe data, Outcome.bind_eq_ok.2 ⟨data, hdata, rfl⟩, ?_⟩
  cases hfooter : (PartitionInfo.probe data).bind (·.footer) with
  | none => exact (measurable_of_bare hfooter).2 (exists_take_of_matches hchunk hdata hmatches _)
  | some footer =>
    obtain ⟨-, i, index, e, himage, hlast, -, hmatches'⟩ :=
      hembedded footer (PartitionInfo.probe_eq_footer.1 hfooter)
    refine (measurable_of_footed hfooter).2 ⟨some i, himage, fun i' index' e' hi' hlast' => ?_⟩
    -- There is one last embedded hash descriptor, so the one that has to be measured is the one
    -- whose digest is right.
    obtain rfl := Option.some.inj hi'
    obtain ⟨rfl, rfl⟩ := Prod.mk.inj (Option.some.inj
      ((lastHash?_eq_some.2 hlast).symm.trans hlast'))
    have hdata' : store.open? e.partitionName = .ok data := by
      rw [partitionName_of_lastHash hlast]
      exact hdata
    obtain ⟨m, hm⟩ := exists_take_of_matches hchunk hdata' hmatches' footer.originalImageSize
    exact ⟨m, hm, fun _ => exists_take_of_matches hchunk hdata hmatches _⟩

/-- A descriptor that is as it should be can be checked. -/
theorem exists_inspect_of_holds {p : Pending} (hchunk : 1 ≤ v.chunkSize)
    (h : v.DescriptorHolds store p.descriptor) : ∃ g, v.inspect store p = .ok g := by
  cases hp : p.descriptor with
  | hash d =>
    rw [hp] at h
    obtain ⟨info, hinfo, hmeasurable⟩ := HashHolds.exists_measurable hchunk h
    exact exists_inspect_of_measurable hp hinfo hmeasurable
  | chain d =>
    rw [hp] at h
    obtain ⟨target, -, htarget, -⟩ := h
    exact (exists_inspect_chain hp).2 ⟨some target, htarget⟩
  | hashtree _ | property _ | cmdline _ | unknown _ =>
    refine ⟨Findings.empty, inspect_of_target?_eq_none ?_⟩
    rw [hp]
    rfl

/-- A consistent chain is verified without an error, and without an issue. -/
theorem Consistent.verify {root : String} (h : v.Consistent store root)
    (hchunk : 1 ≤ v.chunkSize) :
    ∃ found, v.verify store root = .ok found ∧ found.issues = [] := by
  obtain ⟨image, himage⟩ := h.readable root .root
  have hholds : ∀ p, v.Visits store root p → v.DescriptorHolds store p.descriptor :=
    forall_visits_iff.2 fun _ _ _ => h.descriptorHolds
  have hinspected : ∀ p, v.Visits store root p → ∃ g, v.inspect store p = .ok g :=
    fun p hvisits => exists_inspect_of_holds hchunk (hholds p hvisits)
  obtain ⟨found, hfound⟩ := exists_verify himage hinspected
  obtain ⟨-, -, hissues, -⟩ := verify_eq_ok hfound
  exact ⟨found, hfound, (issues_eq_nil hissues).2 ((consistent_iff himage hinspected).2 h)⟩

/-- **A clean verification is a consistent chain, and conversely.** -/
theorem issues_eq_nil_iff {root : String} {found : Verification}
    (h : v.verify store root = .ok found) : found.issues = [] ↔ v.Consistent store root := by
  obtain ⟨⟨image, himage⟩, hinspected, hissues, -⟩ := verify_eq_ok h
  rw [issues_eq_nil hissues]
  exact consistent_iff himage hinspected

/-- An unsigned image with a hash of the first three bytes of another partition. -/
def hashedImage : Image :=
  { Image.empty with
    descriptors :=
      [.hash ⟨3, "sha256", "boot", [9], Digest.Sha256.sha256 [9, 1, 2, 3], 0, Bytes.zeros 60⟩] }

/-- A store with the image and the partition that it has a hash of. -/
def hashedStore : Store :=
  .ofList [
    ("vbmeta", (hashedImage.encodeUnsigned .standard 64).1.toOption.getD []),
    ("boot", [1, 2, 3, 4])]

/-- The image is the one that is read in the store. -/
theorem image_hashedStore :
    ∃ n, hashedStore.image .standard "vbmeta" = .ok (some (Image.unsignedImage hashedImage n)) := by
  have hok : (hashedImage.encodeUnsigned .standard 64).1.toBool = true := by decide +kernel
  have hrange : hashedImage.InRange := by
    refine Image.inRange_of_descriptors (List.forall_mem_singleton.2 ?_)
    refine ⟨?_, ?_, ?_, ?_, ?_, ?_, ?_⟩
    all_goals decide +kernel
  obtain ⟨blob, n, hblob, -, hparse⟩ :=
    @Image.exists_parse_encodeUnsigned .standard _ _ hok hrange (by decide)
  have hopen : hashedStore.open? "vbmeta" = .ok blob := by
    simp [hashedStore, Store.ofList, Store.open?, hblob, Except.toOption]
  exact ⟨n, Store.image_of_parse hopen hparse⟩

/-- The store is consistent. -/
theorem consistent_hashedStore : Consistent ⟨.standard, defaultChunkSize⟩ hashedStore "vbmeta" := by
  obtain ⟨n, himage⟩ := image_hashedStore
  have hreach (name : String) (h : hashedStore.Reach .standard "vbmeta" name) :
      name = "vbmeta" := by
    induction h with
    | root => rfl
    | chain _ hholder hd ih =>
      rw [ih, himage] at hholder
      obtain rfl := Option.some.inj (Except.ok.inj hholder)
      simp [Image.unsignedImage, hashedImage] at hd
  have hholder (name : String) (i : Image) (h : hashedStore.Reach .standard "vbmeta" name)
      (hi : hashedStore.image .standard name = .ok (some i)) :
      i = Image.unsignedImage hashedImage n := by
    rw [hreach name h, himage] at hi
    exact (Option.some.inj (Except.ok.inj hi)).symm
  refine ⟨fun name h => ?_, fun name i h hi hkey => ?_, fun name i d h hi hd => ?_,
    fun name i d h hi hd => ?_⟩
  · rw [hreach name h]
    exact ⟨_, himage⟩
  · rw [hholder name i h hi] at hkey
    cases hkey
  · rw [hholder name i h hi] at hd
    simp [Image.unsignedImage, hashedImage] at hd
  · rw [hholder name i h hi] at hd
    simp only [Image.unsignedImage, hashedImage, List.mem_singleton, Descriptor.hash.injEq] at hd
    subst hd
    have hpayload : [9, 1, 2, 3] = [9] ++ Measurement.payload defaultChunkSize [1, 2, 3, 4] 3 := by
      decide
    refine ⟨[1, 2, 3, 4], rfl, ⟨Digest.Sha256.sha256, rfl, by decide, ?_⟩, ?_⟩
    · exact congrArg Digest.Sha256.sha256 hpayload
    · exact fun footer hfooted => absurd hfooted.length (by decide)

/-- The store with one hash is verified without an issue, and it is consistent. -/
theorem issues_eq_nil_iff_hashedStore :
    ∃ found, verify ⟨.standard, defaultChunkSize⟩ hashedStore "vbmeta" = .ok found ∧
      (found.issues = [] ↔ Consistent ⟨.standard, defaultChunkSize⟩ hashedStore "vbmeta") ∧
      found.issues = [] := by
  obtain ⟨found, hfound, hissues⟩ := consistent_hashedStore.verify (by decide)
  exact ⟨found, hfound, issues_eq_nil_iff hfound, hissues⟩

end Verifier

end VerifiedBoot
