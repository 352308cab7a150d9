import VerifiedBoot.Proofs.Repair.Extent
import VerifiedBoot.Proofs.Walk.Failure

/-!
# What is reported of an image

Beside stale hashes a verification reports images that are not signed although they have to be,
chain descriptors that have another key than the image that they name, and partitions whose data is
of no use. Signatures are looked at where a chain descriptor names a partition and where the
partition is entered. Together these reports do not depend on the order in which the partitions are
entered, or on the descriptor that led to one of them first.
-/

namespace VerifiedBoot

namespace Verifier

variable {v : Verifier} {store : Store} {root : String} {found : Verification}

section Reasons

variable (v store root)

/-- The images without a valid signature that have to have one: those that embed a key, and those
that a chain descriptor names. -/
inductive Unsigned : String → Prop
  | keyed {name : String} {image : Image} :
    store.Reach v.suite root name → store.image v.suite name = .ok (some image) →
    image.publicKey.isSome → image.signatureValid = false → Unsigned name
  | chained {holder : String} {image target : Image} {d : ChainDescriptor} :
    store.Reach v.suite root holder → store.image v.suite holder = .ok (some image) →
    .chain d ∈ image.descriptors → store.image v.suite d.partitionName = .ok (some target) →
    target.signatureValid = false → Unsigned d.partitionName

/-- Whether a chain descriptor names an image that embeds a key, but the key is not the one of the
descriptor. -/
def OtherKeyAt (holder : String) (i : Nat) (key : PublicKey) : Prop :=
  ∃ (image target : Image) (d : ChainDescriptor), store.Reach v.suite root holder ∧
    store.image v.suite holder = .ok (some image) ∧ image.descriptors[i]? = some (.chain d) ∧
    store.image v.suite d.partitionName = .ok (some target) ∧ target.publicKey = some key ∧
    d.publicKey ≠ some key

/-- Why the hash that a partition with a footer keeps of itself cannot be checked: there is no
image, or no hash of the partition in it, or nobody knows the digest of the last one. -/
inductive InnerInvalid (name : String) : Prop
  | unreadable {data : Bytes} {footer : Footer} : store.open? name = .ok data →
    Footed data footer → store.image v.suite name = .ok none → InnerInvalid name
  | missing {data : Bytes} {footer : Footer} {image : Image} : store.open? name = .ok data →
    Footed data footer → store.image v.suite name = .ok (some image) →
    (∀ d, .hash d ∈ image.descriptors → d.partitionName ≠ name) → InnerInvalid name
  | unsupported {footer : Footer} {index : Nat} {e : HashDescriptor} :
    v.Embeds store name footer index e → v.suite.named e.hashAlgorithm = .unsupported →
    InnerInvalid name

/-- The partitions whose data is of no use: there is no image where one has to be, the hash that the
partition keeps of itself cannot be checked, or the image has a hash with a digest that nobody knows
and that it comes to. -/
inductive InvalidData : String → Prop
  | unreadable {name : String} : store.Reach v.suite root name →
    store.image v.suite name = .ok none → InvalidData name
  | inner {holder : String} {image : Image} {d : HashDescriptor} :
    store.Reach v.suite root holder → store.image v.suite holder = .ok (some image) →
    .hash d ∈ image.descriptors → v.InnerInvalid store d.partitionName →
    InvalidData d.partitionName
  | unsupported {holder : String} {image : Image} {d : HashDescriptor} :
    store.Reach v.suite root holder → store.image v.suite holder = .ok (some image) →
    .hash d ∈ image.descriptors → v.suite.named d.hashAlgorithm = .unsupported →
    ¬v.InnerInvalid store d.partitionName → InvalidData holder

end Reasons

/-- There is no last hash of a partition if there is none at all. -/
theorem lastHash?_eq_none {image : Image} {name : String} :
    lastHash? image name = none ↔
      ∀ d, .hash d ∈ image.descriptors → d.partitionName ≠ name := by
  unfold lastHash?
  rw [List.findSome?_eq_none_iff]
  constructor
  · intro h d hd hname
    obtain ⟨i, hi⟩ := List.getElem?_of_mem hd
    have hnone := h (.hash d, i) (List.mem_reverse.2 (List.mem_zipIdx_iff_getElem?.2 hi))
    simp only at hnone
    rw [if_pos hname] at hnone
    cases hnone
  · rintro h ⟨d, i⟩ hmem
    have hd := List.mem_of_getElem? (List.mem_zipIdx_iff_getElem?.1 (List.mem_reverse.1 hmem))
    simp only at hd ⊢
    split
    · exact if_neg (h _ hd)
    · rfl

/-- A partition without a footer keeps no hash of itself. -/
theorem not_innerInvalid_of_bare {name : String} {data : Bytes}
    (hdata : store.open? name = .ok data) (hbare : ∀ footer, ¬Footed data footer) :
    ¬v.InnerInvalid store name := by
  intro h
  cases h with
  | unreadable hdata' hfooted _ | missing hdata' hfooted _ _ =>
    obtain rfl := Outcome.ok_unique hdata hdata'
    exact hbare _ hfooted
  | unsupported hembeds _ =>
    obtain ⟨_, _, hdata', hfooted, -⟩ := hembeds
    obtain rfl := Outcome.ok_unique hdata hdata'
    exact hbare _ hfooted

/-- The last hash that a partition keeps of itself cannot be checked if nobody knows its digest. -/
theorem innerInvalid_of_embeds {name : String} {footer : Footer} {index : Nat} {e : HashDescriptor}
    (h : v.Embeds store name footer index e) :
    v.InnerInvalid store name ↔ v.suite.named e.hashAlgorithm = .unsupported := by
  obtain ⟨data, image, hdata, hfooted, himage, hlast⟩ := h
  constructor
  · intro hinvalid
    cases hinvalid with
    | unreadable _ _ hnone => cases hnone.symm.trans himage
    | missing _ _ himage' hall =>
      obtain rfl := Outcome.ok_some_unique himage himage'
      have hnone := lastHash?_eq_none.2 hall
      rw [lastHash?_eq_some.2 hlast] at hnone
      cases hnone
    | unsupported hembeds hnamed =>
      obtain ⟨_, _, _, _, himage', hlast'⟩ := hembeds
      obtain rfl := Outcome.ok_some_unique himage himage'
      have hsame := (lastHash?_eq_some.2 hlast).symm.trans (lastHash?_eq_some.2 hlast')
      obtain ⟨-, rfl⟩ := Prod.mk.inj (Option.some.inj hsame)
      exact hnamed
  · exact .unsupported ⟨data, image, hdata, hfooted, himage, hlast⟩

/-- A measurement finds data to be of no use if nobody knows the digest. -/
theorem measureFinds_invalid_iff {holder name : String} {index : Nat} {d : HashDescriptor}
    {size : Int} {m : Option Measurement}
    (h : Measurement.take v.suite store v.chunkSize d size = .ok m) :
    MeasureFinds holder index d m (.issue (.invalidPartitionData name)) ↔
      name = holder ∧ v.suite.named d.hashAlgorithm = .unsupported := by
  rcases Measurement.take_eq_ok h with ⟨hnamed, rfl⟩ | ⟨digest, data, hnamed, -, rfl⟩
  · constructor
    · rintro ⟨⟩
      exact ⟨rfl, hnamed⟩
    · rintro ⟨rfl, -⟩
      exact .unknown
  · constructor
    · rintro ⟨⟩
    · rintro ⟨-, hnone⟩
      cases hnamed.symm.trans hnone

/-- Which data a hash descriptor finds to be of no use. -/
theorem hashFinds_invalid_iff {p : Pending} {d : HashDescriptor} {g : Findings} {name : String}
    (hp : p.descriptor = .hash d) (hg : v.inspect store p = .ok g) :
    HashFinds v store p d (.issue (.invalidPartitionData name)) ↔
      (name = d.partitionName ∧ v.InnerInvalid store d.partitionName) ∨
        (name = p.holder ∧ v.suite.named d.hashAlgorithm = .unsupported ∧
          ¬v.InnerInvalid store d.partitionName) := by
  obtain ⟨data, hdata, hinfo, hmeasurable⟩ := exists_measurable hp hg
  cases hfooter : (PartitionInfo.probe data).bind (·.footer) with
  | none =>
    have hbare (footer : Footer) : ¬Footed data footer := by
      intro hfooted
      cases hfooter.symm.trans (PartitionInfo.probe_eq_footer.2 hfooted)
    obtain ⟨m, hm⟩ := (measurable_of_bare hfooter).1 hmeasurable
    rw [hashFinds_of_bare hinfo hfooter hm, measureFinds_invalid_iff hm]
    simp [@not_innerInvalid_of_bare v store _ _ hdata hbare]
  | some footer =>
    have hfooted := PartitionInfo.probe_eq_footer.1 hfooter
    obtain ⟨image, himage, hall⟩ := (measurable_of_footed hfooter).1 hmeasurable
    cases image with
    | none =>
      have hinner : v.InnerInvalid store d.partitionName := .unreadable hdata hfooted himage
      rw [hashFinds_of_unreadable hinfo hfooter himage]
      simp [hinner]
    | some image =>
      cases hlast : lastHash? image d.partitionName with
      | none =>
        have hinner : v.InnerInvalid store d.partitionName :=
          .missing hdata hfooted himage (lastHash?_eq_none.1 hlast)
        rw [hashFinds_of_missing hinfo hfooter himage hlast]
        simp [hinner]
      | some last =>
        obtain ⟨index, e⟩ := last
        obtain ⟨m, hm, hsome⟩ := hall image index e rfl hlast
        have hinner := innerInvalid_of_embeds
          ⟨data, image, hdata, hfooted, himage, lastHash?_eq_some.1 hlast⟩
        rw [hashFinds_of_embedded hinfo hfooter himage hlast hm, measureFinds_invalid_iff hm,
          hinner]
        -- The visited hash is measured only after the embedded one.
        rcases Measurement.take_eq_ok hm with ⟨hnamed, rfl⟩ | ⟨digest, _, hnamed, -, rfl⟩
        · simp [hnamed]
        · obtain ⟨m', hm'⟩ := hsome rfl
          have houter : (∃ m'', Measurement.take v.suite store v.chunkSize d
              footer.originalImageSize = .ok m'' ∧
                MeasureFinds p.holder p.index d m'' (.issue (.invalidPartitionData name))) ↔
              name = p.holder ∧ v.suite.named d.hashAlgorithm = .unsupported := by
            rw [← measureFinds_invalid_iff hm']
            constructor
            · rintro ⟨m'', hm'', hx⟩
              obtain rfl := Outcome.ok_unique hm' hm''
              exact hx
            · exact fun hx => ⟨m', hm', hx⟩
          rw [houter]
          simp [hnamed]

/-- What is found of a signature is that it is missing where there has to be one. -/
theorem unsigned_of_finds {name : String}
    (h : v.Finds store root (.issue (.invalidSignature name))) : v.Unsigned store root name := by
  rcases entered_or_chained h nofun nofun with ⟨image, himage, hfinds⟩ |
    ⟨q, d, image, ⟨holder, outer, hreach, houter, hmem⟩, hq, himage, hfinds⟩
  · cases hfinds with
    | unsigned hkey hvalid => exact .keyed .root himage hkey hvalid
  · have hd := (Pending.mem_ofImage.1 hmem).2
    rw [hq] at hd
    cases hfinds with
    | unsigned hvalid => exact .chained hreach houter (List.mem_of_getElem? hd) himage hvalid

/-- What a chain descriptor of an image that is reached gives was found. -/
theorem finds_of_chain (h : v.verify store root = .ok found) {holder : String} {image : Image}
    {i : Nat} {d : ChainDescriptor} {target : Option Image} {x : Finding}
    (hreach : store.Reach v.suite root holder)
    (himage : store.image v.suite holder = .ok (some image))
    (hd : image.descriptors[i]? = some (.chain d))
    (htarget : store.image v.suite d.partitionName = .ok target)
    (hx : ChainFinds ⟨holder, i, .chain d⟩ d target x) : v.Finds store root x := by
  have hvisits : v.Visits store root ⟨holder, i, .chain d⟩ :=
    ⟨holder, image, hreach, himage, Pending.mem_ofImage.2 ⟨rfl, hd⟩⟩
  obtain ⟨g, hg, hfound⟩ := inspect_of_visits h hvisits
  obtain ⟨target', htarget', hholds⟩ := holds_inspect_chain rfl hg
  obtain rfl := Outcome.ok_unique htarget htarget'
  exact hfound x ((hholds x).2 (.inr hx))

/-- Both the check of a chain descriptor and entering a partition find missing signatures. -/
theorem Unsigned.finds (h : v.verify store root = .ok found) {name : String}
    (hunsigned : v.Unsigned store root name) :
    v.Finds store root (.issue (.invalidSignature name)) := by
  cases hunsigned with
  | chained hreach himage hd htarget hvalid =>
    obtain ⟨i, hi⟩ := List.getElem?_of_mem hd
    exact finds_of_chain h hreach himage hi htarget (.unsigned hvalid)
  | keyed hreach himage hkey hvalid =>
    -- Every partition but the root is entered through a chain descriptor, which looks first.
    cases hreach with
    | root => exact .enter himage (.unsigned hkey hvalid)
    | chain hreach houter hd =>
      obtain ⟨i, hi⟩ := List.getElem?_of_mem hd
      exact finds_of_chain h hreach houter hi himage (.unsigned hvalid)

/-- What is found of a key is that it is not the one of the chain descriptor. -/
theorem otherKeyAt_of_finds {holder : String} {index : Int} {key : Option PublicKey}
    (h : v.Finds store root (.issue (.publicKeyMismatch holder index key))) :
    ∃ (i : Nat) (k : PublicKey), index = i ∧ key = some k ∧ v.OtherKeyAt store root holder i k := by
  rcases entered_or_chained h nofun nofun with ⟨image, -, hfinds⟩ |
    ⟨q, d, image, ⟨name, outer, hreach, houter, hmem⟩, hq, himage, hfinds⟩
  · cases hfinds
  · obtain ⟨rfl, hd⟩ := Pending.mem_ofImage.1 hmem
    rw [hq] at hd
    cases hfinds with
    | @otherKey target hkey hother =>
      obtain ⟨k, hk⟩ := Option.isSome_iff_exists.1 hkey
      exact ⟨q.index, k, rfl, hk, outer, target, d, hreach, houter, hd, himage, hk,
        fun hsame => hother (hk.trans hsame.symm)⟩

/-- The check of a chain descriptor finds that it has another key. -/
theorem OtherKeyAt.finds (h : v.verify store root = .ok found) {holder : String} {i : Nat}
    {key : PublicKey} (hother : v.OtherKeyAt store root holder i key) :
    v.Finds store root (.issue (.publicKeyMismatch holder i (some key))) := by
  obtain ⟨image, target, d, hreach, himage, hd, htarget, hkey, hne⟩ := hother
  have hfinds : ChainFinds ⟨holder, i, .chain d⟩ d (some target)
      (.issue (.publicKeyMismatch holder i target.publicKey)) := by
    refine .otherKey ?_ ?_
    · rw [hkey]
      rfl
    · rw [hkey]
      exact hne.symm
  rw [hkey] at hfinds
  exact finds_of_chain h hreach himage hd htarget hfinds

/-- What is found of data is that it is of no use. -/
theorem invalidData_of_finds (h : v.verify store root = .ok found) {name : String}
    (hfinds : v.Finds store root (.issue (.invalidPartitionData name))) :
    v.InvalidData store root name := by
  rcases finds_cases hfinds with ⟨image, himage, hfinds⟩ | ⟨q, d, hvisits, hq, hfinds⟩ |
    ⟨q, d, image, ⟨holder, outer, hreach, houter, hmem⟩, hq, himage, hfinds⟩
  -- It is found on entering the root, by a hash, or on entering an image that is chained.
  · cases hfinds with
    | unreadable => exact .unreadable .root himage
  · rcases hfinds with href | hfinds
    · cases href
    · obtain ⟨g, hg, -⟩ := inspect_of_visits h hvisits
      obtain ⟨holder, outer, hreach, houter, hmem⟩ := hvisits
      obtain ⟨rfl, hd⟩ := Pending.mem_ofImage.1 hmem
      rw [hq] at hd
      have hmem := List.mem_of_getElem? hd
      rcases (hashFinds_invalid_iff hq hg).1 hfinds with ⟨rfl, hinner⟩ | ⟨rfl, hnamed, hinner⟩
      · exact .inner hreach houter hmem hinner
      · exact .unsupported hreach houter hmem hnamed hinner
  · have hd := (Pending.mem_ofImage.1 hmem).2
    rw [hq] at hd
    rcases hfinds with href | hfinds
    · cases href
    · cases hfinds with
      | unreadable =>
        exact .unreadable (hreach.chain houter (List.mem_of_getElem? hd)) himage

/-- Data of no use is found where a partition is entered, and by the hash or the chain descriptors
that name it. -/
theorem InvalidData.finds (h : v.verify store root = .ok found) {name : String}
    (hinvalid : v.InvalidData store root name) :
    v.Finds store root (.issue (.invalidPartitionData name)) := by
  -- A hash finds it for either of the two reasons that it can have.
  have hhash {holder : String} {image : Image} {d : HashDescriptor}
      (hreach : store.Reach v.suite root holder)
      (himage : store.image v.suite holder = .ok (some image)) (hd : .hash d ∈ image.descriptors)
      (hreason : (name = d.partitionName ∧ v.InnerInvalid store d.partitionName) ∨
        (name = holder ∧ v.suite.named d.hashAlgorithm = .unsupported ∧
          ¬v.InnerInvalid store d.partitionName)) :
      v.Finds store root (.issue (.invalidPartitionData name)) := by
    obtain ⟨i, hi⟩ := List.getElem?_of_mem hd
    have hvisits : v.Visits store root ⟨holder, i, .hash d⟩ :=
      ⟨holder, image, hreach, himage, Pending.mem_ofImage.2 ⟨rfl, hi⟩⟩
    obtain ⟨g, hg, hfound⟩ := inspect_of_visits h hvisits
    have hfinds := (hashFinds_invalid_iff rfl hg).2 hreason
    exact hfound _ ((holds_inspect_hash rfl hg _).2 (.inr hfinds))
  cases hinvalid with
  | inner hreach himage hd hinner => exact hhash hreach himage hd (.inl ⟨rfl, hinner⟩)
  | unsupported hreach himage hd hnamed hinner =>
    exact hhash hreach himage hd (.inr ⟨rfl, hnamed, hinner⟩)
  | unreadable hreach hnone =>
    cases hreach with
    | root => exact .enter hnone .unreadable
    | chain hreach himage hd =>
      obtain ⟨i, hi⟩ := List.getElem?_of_mem hd
      exact finds_of_chain h hreach himage hi hnone .unreadable

/-- **What is reported of an image.** The reports of signatures, of keys and of data are those for
which there is a reason, and no others. -/
theorem structural_issues_iff (h : v.verify store root = .ok found) :
    (∀ name, .invalidSignature name ∈ found.issues ↔ v.Unsigned store root name) ∧
    (∀ holder (index : Int) key, .publicKeyMismatch holder index key ∈ found.issues ↔
      ∃ (i : Nat) (k : PublicKey), index = i ∧ key = some k ∧ v.OtherKeyAt store root holder i k) ∧
    ∀ name, .invalidPartitionData name ∈ found.issues ↔ v.InvalidData store root name := by
  obtain ⟨-, -, hissues, -⟩ := verify_eq_ok h
  refine ⟨fun name => ?_, fun holder index key => ?_, fun name => ?_⟩
  · rw [hissues]
    exact ⟨unsigned_of_finds, fun hunsigned => hunsigned.finds h⟩
  · rw [hissues]
    constructor
    · exact otherKeyAt_of_finds
    · rintro ⟨i, k, rfl, rfl, hother⟩
      exact hother.finds h
  · rw [hissues]
    exact ⟨invalidData_of_finds h, fun hinvalid => hinvalid.finds h⟩

/-- The chained image without a signature is reported, and there is a reason for it. -/
theorem structural_issues_iff_chainStore :
    verify ⟨.standard, defaultChunkSize⟩ chainStore "vbmeta" = .ok chainFound ∧
      (∀ name, Unsigned ⟨.standard, defaultChunkSize⟩ chainStore "vbmeta" name ↔ name = "boot") ∧
      (∀ holder i key,
        ¬OtherKeyAt ⟨.standard, defaultChunkSize⟩ chainStore "vbmeta" holder i key) ∧
      ∀ name, ¬InvalidData ⟨.standard, defaultChunkSize⟩ chainStore "vbmeta" name := by
  obtain ⟨hsignatures, hkeys, hdata⟩ := structural_issues_iff verify_chainStore
  refine ⟨verify_chainStore, fun name => ?_, fun holder i key hother => ?_, fun name hinvalid => ?_⟩
  · rw [← hsignatures]
    constructor
    · intro hissue
      exact Issue.invalidSignature.inj (List.mem_singleton.1 hissue)
    · rintro rfl
      exact List.mem_singleton.2 rfl
  · cases List.mem_singleton.1 ((hkeys holder i (some key)).2 ⟨i, key, rfl, rfl, hother⟩)
  · cases List.mem_singleton.1 ((hdata name).2 hinvalid)

end Verifier

end VerifiedBoot
