import VerifiedBoot.Proofs.Repair.Clean
import VerifiedBoot.Proofs.Walk.Failure

/-!
# What is reported of a hash

A verification measures the hashes that it visits, and of a partition with a footer the last hash
that the partition keeps of itself. A hash is reported exactly if it was measured and does not say
what was measured, under the partition and the index where it stands. What the report says is what
the hash has to say: once it does, its check succeeds.
-/

namespace VerifiedBoot

namespace Verifier

variable {v : Verifier} {store : Store} {root : String} {found : Verification}

variable (v store root) in
/-- The hashes that are measured, by partition and index. A visited hash whose partition has a
footer is measured if a hash with a digest that can be computed is embedded there; the embedded hash
is measured in any case. -/
inductive MeasuredAt : String → Nat → HashDescriptor → Prop
  | outer {holder : String} {image : Image} {i : Nat} {d : HashDescriptor} :
    store.Reach v.suite root holder → store.image v.suite holder = .ok (some image) →
    image.descriptors[i]? = some (.hash d) →
    (∀ data footer, store.open? d.partitionName = .ok data → Footed data footer →
      ∃ index e, v.Embeds store d.partitionName footer index e ∧ v.Computes e.hashAlgorithm) →
    MeasuredAt holder i d
  | inner {holder : String} {image : Image} {d e : HashDescriptor} {footer : Footer} {i : Nat} :
    store.Reach v.suite root holder → store.image v.suite holder = .ok (some image) →
    .hash d ∈ image.descriptors → v.Embeds store d.partitionName footer i e →
    MeasuredAt d.partitionName i e

/-- Whether size and digest are what a hash has to say of the partition that it names, over the size
in the footer of the partition if there is one, and the hash does not say so. -/
def Stale (v : Verifier) (store : Store) (d : HashDescriptor) (size : Int) (digest : Bytes) :
    Prop :=
  ∃ data hash, store.open? d.partitionName = .ok data ∧
    v.suite.named d.hashAlgorithm = .plain hash ∧ size = min (d.sizeIn data) data.length ∧
    digest = hash (d.salt ++ Measurement.payload v.chunkSize data size) ∧
    ¬(size = d.imageSize ∧ digest = d.digest)

/-- A hash is stale if it was measured and does not agree with the measurement. -/
theorem stale_iff {d : HashDescriptor} {data : Bytes} {m : Option Measurement} {size : Int}
    {digest : Bytes} (hdata : store.open? d.partitionName = .ok data)
    (htake : Measurement.take v.suite store v.chunkSize d (d.sizeIn data) = .ok m) :
    v.Stale store d size digest ↔
      ∃ taken, m = some taken ∧ taken.agrees d = false ∧ size = taken.size ∧
        digest = taken.digest := by
  have hagrees {taken : Measurement} : taken.agrees d = false ↔
      ¬(taken.size = d.imageSize ∧ taken.digest = d.digest) := by
    rw [← Measurement.agrees_iff, Bool.not_eq_true]
  constructor
  · rintro ⟨data', hash, hdata', hnamed, rfl, rfl, hdiffers⟩
    obtain rfl := Outcome.ok_unique hdata hdata'
    rcases Measurement.take_eq_ok htake with ⟨hnone, -⟩ | ⟨hash', data', hnamed', hdata', rfl⟩
    · cases hnone.symm.trans hnamed
    · obtain rfl := Outcome.ok_unique hdata hdata'
      obtain rfl := NamedDigest.plain.inj (hnamed.symm.trans hnamed')
      -- A partition that is too short is measured over all of it, so the size that counts is the
      -- smaller one.
      rw [Measurement.payload_min] at hdiffers ⊢
      exact ⟨_, rfl, hagrees.2 hdiffers, rfl, rfl⟩
  · rintro ⟨taken, rfl, hstale, rfl, rfl⟩
    rcases Measurement.take_eq_ok htake with ⟨-, hnone⟩ | ⟨hash, data', hnamed, hdata', hsome⟩
    · cases hnone
    · obtain rfl := Outcome.ok_unique hdata hdata'
      obtain rfl := Option.some.inj hsome
      refine ⟨data, hash, hdata, hnamed, rfl, ?_, hagrees.1 hstale⟩
      exact congrArg (fun front => hash (d.salt ++ front)) (Measurement.payload_min ..).symm

/-- Each of these hashes was measured, and what the measurement finds was found. -/
theorem MeasuredAt.exists_take (h : v.verify store root = .ok found) {p : String} {i : Nat}
    {d : HashDescriptor} (hmeasured : v.MeasuredAt store root p i d) :
    ∃ data m, store.open? d.partitionName = .ok data ∧
      Measurement.take v.suite store v.chunkSize d (d.sizeIn data) = .ok m ∧
      ∀ x, MeasureFinds p i d m x → v.Finds store root x := by
  cases hmeasured with
  | @outer _ image _ _ hreach himage hd hembedded =>
    have hvisits : v.Visits store root ⟨p, i, .hash d⟩ :=
      ⟨p, image, hreach, himage, Pending.mem_ofImage.2 ⟨rfl, hd⟩⟩
    obtain ⟨g, hg, hfound⟩ := inspect_of_visits h hvisits
    have hfinds {x : Finding} (hx : HashFinds v store ⟨p, i, .hash d⟩ d x) : v.Finds store root x :=
      hfound x ((holds_inspect_hash rfl hg x).2 (.inr hx))
    obtain ⟨data, hdata, hinfo, hmeasurable⟩ := exists_measurable rfl hg
    cases hfooter : (PartitionInfo.probe data).bind (·.footer) with
    | none =>
      obtain ⟨m, hm⟩ := (measurable_of_bare hfooter).1 hmeasurable
      refine ⟨data, m, hdata, ?_, fun x hx => hfinds (.bare hinfo hfooter hm hx)⟩
      rwa [HashDescriptor.sizeIn_of_bare hfooter]
    | some footer =>
      have hfooted := PartitionInfo.probe_eq_footer.1 hfooter
      obtain ⟨index, e, ⟨data', target, hdata', -, htarget, hlastHash⟩, hash, hplain⟩ :=
        hembedded data footer hdata hfooted
      have hlast := lastHash?_eq_some.2 hlastHash
      obtain ⟨target', htarget', hall⟩ := (measurable_of_footed hfooter).1 hmeasurable
      obtain rfl := Outcome.ok_unique htarget htarget'
      obtain ⟨m, hm, hsome⟩ := hall target index e rfl hlast
      -- The digest of the embedded hash can be computed, so it was, and the visited hash is next.
      rcases Measurement.take_eq_ok hm with ⟨hnone, -⟩ | ⟨_, _, _, _, rfl⟩
      · cases hnone.symm.trans hplain
      · obtain ⟨m', hm'⟩ := hsome rfl
        refine ⟨data, m', hdata, ?_, fun x hx => ?_⟩
        · rwa [HashDescriptor.sizeIn_of_footed hfooter]
        · exact hfinds (.outer hinfo hfooter htarget hlast hm hm' hx)
  | @inner holder image outer _ footer _ hreach himage hmem hembeds =>
    obtain ⟨index, hindex⟩ := List.getElem?_of_mem hmem
    have hvisits : v.Visits store root ⟨holder, index, .hash outer⟩ :=
      ⟨holder, image, hreach, himage, Pending.mem_ofImage.2 ⟨rfl, hindex⟩⟩
    obtain ⟨g, hg, hfound⟩ := inspect_of_visits h hvisits
    obtain ⟨data, hdata, hinfo, hmeasurable⟩ := exists_measurable rfl hg
    obtain ⟨data', target, hdata', hfooted, htarget, hlastHash⟩ := hembeds
    obtain rfl := Outcome.ok_unique hdata hdata'
    have hfooter := PartitionInfo.probe_eq_footer.2 hfooted
    have hlast := lastHash?_eq_some.2 hlastHash
    obtain ⟨target', htarget', hall⟩ := (measurable_of_footed hfooter).1 hmeasurable
    obtain rfl := Outcome.ok_unique htarget htarget'
    obtain ⟨m, hm, -⟩ := hall target i d rfl hlast
    refine ⟨data, m, (partitionName_of_lastHash hlastHash).symm ▸ hdata, ?_, fun x hx => ?_⟩
    · rwa [HashDescriptor.sizeIn_of_footed hfooter]
    · refine hfound x ((holds_inspect_hash rfl hg x).2 (.inr ?_))
      exact .embedded hinfo hfooter htarget hlast hm hx

/-- A hash that was reported was measured, and does not agree with the measurement. -/
theorem measuredAt_of_finds {p : String} {index size : Int} {digest : Bytes}
    (h : v.Finds store root (.issue (.hashMismatch p index size digest))) :
    ∃ (i : Nat) (d : HashDescriptor) (data : Bytes) (m : Measurement), index = i ∧
      v.MeasuredAt store root p i d ∧ store.open? d.partitionName = .ok data ∧
      Measurement.take v.suite store v.chunkSize d (d.sizeIn data) = .ok (some m) ∧
      m.agrees d = false ∧ size = m.size ∧ digest = m.digest := by
  rcases finds_cases h with ⟨image, -, hfinds⟩ | ⟨q, d, hvisits, hq, hfinds⟩ |
    ⟨q, d, image, -, -, -, hfinds⟩
  · cases hfinds
  · obtain ⟨name, image, hreach, himage, hmem⟩ := hvisits
    obtain ⟨rfl, hd⟩ := Pending.mem_ofImage.1 hmem
    rw [hq] at hd
    rcases hfinds with href | hfinds
    · cases href
    -- A partition that was probed was opened.
    have hopen {info : Option PartitionInfo} (hinfo : store.info d.partitionName = .ok info) :
        ∃ data, store.open? d.partitionName = .ok data ∧ PartitionInfo.probe data = info := by
      obtain ⟨data, hdata, hprobe⟩ := Outcome.bind_eq_ok.1 hinfo
      exact ⟨data, hdata, Except.ok.inj hprobe⟩
    cases hfinds with
    | bare hinfo hfooter htake hx =>
      cases hx with
      | @stale m hagrees =>
        obtain ⟨data, hdata, rfl⟩ := hopen hinfo
        rw [← HashDescriptor.sizeIn_of_bare hfooter] at htake
        refine ⟨q.index, d, data, m, rfl, .outer hreach himage hd ?_, hdata, htake, hagrees, rfl,
          rfl⟩
        intro data' footer hdata' hfooted
        obtain rfl := Outcome.ok_unique hdata hdata'
        exact absurd (hfooter.symm.trans (PartitionInfo.probe_eq_footer.2 hfooted)) (by simp)
    | @embedded _ footer target i e _ _ hinfo hfooter htarget hlast htake hx =>
      cases hx with
      | @stale m hagrees =>
        obtain ⟨data, hdata, rfl⟩ := hopen hinfo
        have hlastHash := lastHash?_eq_some.1 hlast
        have hembeds : v.Embeds store d.partitionName footer i e :=
          ⟨data, target, hdata, PartitionInfo.probe_eq_footer.1 hfooter, htarget, hlastHash⟩
        rw [← HashDescriptor.sizeIn_of_footed hfooter] at htake
        exact ⟨i, e, data, m, rfl, .inner hreach himage (List.mem_of_getElem? hd) hembeds,
          (partitionName_of_lastHash hlastHash).symm ▸ hdata, htake, hagrees, rfl, rfl⟩
    | @outer _ footer target i e _ _ _ hinfo hfooter htarget hlast htake htake' hx =>
      cases hx with
      | @stale m hagrees =>
        obtain ⟨data, hdata, rfl⟩ := hopen hinfo
        have hfooted := PartitionInfo.probe_eq_footer.1 hfooter
        rw [← HashDescriptor.sizeIn_of_footed hfooter d] at htake'
        refine ⟨q.index, d, data, m, rfl, .outer hreach himage hd ?_, hdata, htake', hagrees, rfl,
          rfl⟩
        intro data' footer' hdata' hfooted'
        obtain rfl := Outcome.ok_unique hdata hdata'
        obtain rfl := Option.some.inj
          (hfooter.symm.trans (PartitionInfo.probe_eq_footer.2 hfooted'))
        refine ⟨i, e, ⟨data, target, hdata, hfooted, htarget, lastHash?_eq_some.1 hlast⟩, ?_⟩
        -- The outer hash is measured only behind the embedded one, whose digest therefore has a
        -- name.
        rcases Measurement.take_eq_ok htake with ⟨-, hnone⟩ | ⟨hash, _, hplain, -⟩
        · cases hnone
        · exact ⟨hash, hplain⟩
  · rcases hfinds with href | hfinds
    · cases href
    · cases hfinds

/-- A measurement depends on a hash by what it names and its salt, and on the size only as far as
the partition goes. -/
theorem take_congr {d d' : HashDescriptor} {data : Bytes} {size size' : Int}
    (hdata : store.open? d.partitionName = .ok data) (hname : d'.partitionName = d.partitionName)
    (halgorithm : d'.hashAlgorithm = d.hashAlgorithm) (hsalt : d'.salt = d.salt)
    (hsize : min size' (data.length : Int) = min size data.length) :
    Measurement.take v.suite store v.chunkSize d' size' =
      Measurement.take v.suite store v.chunkSize d size := by
  unfold Measurement.take
  simp only [hname, halgorithm, hsalt, hdata, hsize, bind, Except.bind]

/-- The hash with the size and the digest that were measured. -/
def mended (d : HashDescriptor) (m : Measurement) : HashDescriptor :=
  { d with imageSize := m.size, digest := m.digest }

/-- A hash that says what was measured is measured again with the same result, and its check
succeeds. -/
theorem checkHash_mended {d : HashDescriptor} {data : Bytes} {m : Measurement}
    (hdata : store.open? d.partitionName = .ok data)
    (htake : Measurement.take v.suite store v.chunkSize d (d.sizeIn data) = .ok (some m))
    (holder : String) (i : Nat) (f : Findings) :
    v.checkHash store holder i (mended d m) ((mended d m).sizeIn data) f = .ok (true, f) := by
  have hm : m.size = min (d.sizeIn data) data.length := by
    rcases Measurement.take_eq_ok htake with ⟨-, hnone⟩ | ⟨hash, data', -, hdata', hsome⟩
    · cases hnone
    · obtain rfl := Outcome.ok_unique hdata hdata'
      obtain rfl := Option.some.inj hsome
      rfl
  -- The mended hash has the smaller size for its own; with a footer its size does not count.
  have hsize : min ((mended d m).sizeIn data) (data.length : Int) =
      min (d.sizeIn data) data.length := by
    cases hfooter : (PartitionInfo.probe data).bind (·.footer) with
    | none =>
      rw [HashDescriptor.sizeIn_of_bare hfooter]
      change min m.size (data.length : Int) = _
      omega
    | some footer =>
      rw [HashDescriptor.sizeIn_of_footed hfooter, HashDescriptor.sizeIn_of_footed hfooter]
  have hagain := @take_congr v store d (mended d m) data _ _ hdata rfl rfl rfl hsize
  have hagrees : m.agrees (mended d m) = true := Measurement.agrees_iff.2 ⟨rfl, rfl⟩
  refine Outcome.bind_eq_ok.2 ⟨some m, hagain.trans htake, ?_⟩
  simp only [hagrees]
  rfl

/-- **What is reported of a hash.** It is reported exactly if it was measured and is stale, where it
stands and with what it has to say; and with that its check succeeds. -/
theorem hashMismatch_mem_iff (h : v.verify store root = .ok found) {p : String} {index size : Int}
    {digest : Bytes} :
    (.hashMismatch p index size digest ∈ found.issues ↔ ∃ (i : Nat) (d : HashDescriptor),
      index = i ∧ v.MeasuredAt store root p i d ∧ v.Stale store d size digest) ∧
    ∀ (i : Nat) (d : HashDescriptor), v.MeasuredAt store root p i d →
      v.Stale store d size digest → ∃ data, store.open? d.partitionName = .ok data ∧
        ∀ f, v.checkHash store p i (mended d ⟨size, digest⟩)
          ((mended d ⟨size, digest⟩).sizeIn data) f = .ok (true, f) := by
  obtain ⟨-, -, hissues, -⟩ := verify_eq_ok h
  refine ⟨?_, fun i d hmeasured hstale => ?_⟩
  · rw [hissues]
    constructor
    -- An issue gives a measurement, and a measurement that does not agree gives the issue.
    · intro hfinds
      obtain ⟨i, d, data, m, hindex, hmeasured, hdata, htake, hagrees, hsize, hdigest⟩ :=
        measuredAt_of_finds hfinds
      exact ⟨i, d, hindex, hmeasured,
        (stale_iff hdata htake).2 ⟨m, rfl, hagrees, hsize, hdigest⟩⟩
    · rintro ⟨i, d, rfl, hmeasured, hstale⟩
      obtain ⟨data, m, hdata, htake, hfinds⟩ := hmeasured.exists_take h
      obtain ⟨taken, rfl, hagrees, rfl, rfl⟩ := (stale_iff hdata htake).1 hstale
      exact hfinds _ (.stale hagrees)
  · obtain ⟨data, m, hdata, htake, -⟩ := hmeasured.exists_take h
    obtain ⟨taken, rfl, -, rfl, rfl⟩ := (stale_iff hdata htake).1 hstale
    exact ⟨data, hdata, checkHash_mended hdata htake p i⟩

/-- The issue of the store with a hash that is not true is what its hash has to say. -/
theorem hashMismatch_mem_iff_footedStore :
    verify ⟨.standard, defaultChunkSize⟩ footedStore "vbmeta" = .ok footedFound ∧
      ∃ (i : Nat) (d : HashDescriptor), (0 : Int) = i ∧
        MeasuredAt ⟨.standard, defaultChunkSize⟩ footedStore "vbmeta" "boot" i d ∧
        Stale ⟨.standard, defaultChunkSize⟩ footedStore d 4 trueDigest := by
  have hissue : .hashMismatch "boot" 0 4 trueDigest ∈ footedFound.issues :=
    List.mem_cons_of_mem _ List.mem_cons_self
  exact ⟨verify_footedStore, (hashMismatch_mem_iff verify_footedStore).1.1 hissue⟩

end Verifier

end VerifiedBoot
