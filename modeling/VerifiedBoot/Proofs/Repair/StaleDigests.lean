import VerifiedBoot.Proofs.Repair.Mismatch

/-!
# The hashes that a repair leaves behind

A repair measures nothing again. What it writes into a hash was found by the verification before it,
so after the repair a hash is true of what the partition held then. For a partition with a footer,
and for one without an image, this is still what it holds. An image that fills its partition may
have been rewritten since, and a hash that names it then speaks of bytes that are gone.
-/

namespace VerifiedBoot

namespace Verifier

open Repair

variable {v : Verifier} {store store' : Store} {root name : String} {found : Verification}
  {s : State}

/-- Whether a hash is left behind by requests: it names an image that one of them rewrites, and it
is true of what was there before. -/
def LeftBehind (v : Verifier) (store : Store) (requests : List Request) (e : HashDescriptor) :
    Prop :=
  ∃ data, store.open? e.partitionName = .ok data ∧ data.take 4 = Header.signature ∧
    e.Matches v data ∧ ∃ request ∈ requests, request.partition = e.partitionName

namespace Finished

/-- A hash is true afterwards, or it is left behind and names an image. -/
theorem hashHolds_or_leftBehind (h : Finished v root found s store store')
    (hchunk : 1 ≤ v.chunkSize) {requests : List Request}
    (hrequests : s.changed.mapM (fun (name, pair) => s.request name pair) = .ok requests)
    {image : Image} {e : HashDescriptor} (hreach : store'.Reach v.suite root name)
    (himage : store'.image v.suite name = .ok (some image)) (he : .hash e ∈ image.descriptors) :
    v.HashHolds store' e ∨ v.LeftBehind store requests e ∧
      ∃ data, store'.open? e.partitionName = .ok data ∧ data.take 4 = Header.signature := by
  obtain ⟨data, data', hdata, hdata', hmatches, hholds⟩ :=
    h.hashHolds_or_changed hchunk (h.reframed.reach_before hreach) himage he
  refine hholds.imp_right fun ⟨hmagic, hmagic', hchanged⟩ => ?_
  have hrequested := ((requests_eq_ok h.invariant.nodup hrequests).2.1 _).2 hchanged
  exact ⟨⟨data, hdata, hmagic, hmatches, List.mem_map.1 hrequested⟩, data', hdata', hmagic'⟩

/-- A hash can be checked afterwards. -/
theorem exists_inspect_hash (h : Finished v root found s store store') (hchunk : 1 ≤ v.chunkSize)
    {p : Pending} {e : HashDescriptor} (hvisits : v.Visits store' root p)
    (hp : p.descriptor = .hash e) : ∃ g, v.inspect store' p = .ok g := by
  obtain ⟨name, image, hreach, himage, hmem⟩ := hvisits
  have he := List.mem_of_getElem? (Pending.mem_ofImage.1 hmem).2
  rw [hp] at he
  obtain ⟨data, data', -, hdata', hmatches, hholds | ⟨-, hmagic', -⟩⟩ :=
    h.hashHolds_or_changed hchunk (h.reframed.reach_before hreach) himage he
  · obtain ⟨info, hinfo, hmeasurable⟩ := HashHolds.exists_measurable hchunk hholds
    exact exists_inspect_of_measurable hp hinfo hmeasurable
  -- The digest has a length of its own, for it was computed before.
  · obtain ⟨digest, hnamed, -⟩ := hmatches
    have htake := Measurement.take_of_plain hchunk hdata' hnamed e.imageSize
    have hinfo : store'.info e.partitionName = .ok (some ⟨0, none⟩) :=
      Outcome.bind_eq_ok.2
        ⟨data', hdata', congrArg Except.ok (PartitionInfo.probe_of_signature hmagic')⟩
    exact exists_inspect_of_measurable hp hinfo ((measurable_of_bare rfl).2 ⟨_, htake⟩)

/-- Every descriptor can be checked afterwards. -/
theorem exists_inspect (h : Finished v root found s store store') (hchunk : 1 ≤ v.chunkSize)
    {p : Pending} (hvisits : v.Visits store' root p) : ∃ g, v.inspect store' p = .ok g := by
  cases hp : p.descriptor with
  | hash e => exact h.exists_inspect_hash hchunk hvisits hp
  | chain d =>
    obtain ⟨name, image, hreach, himage, hmem⟩ := hvisits
    have hd := List.mem_of_getElem? (Pending.mem_ofImage.1 hmem).2
    rw [hp] at hd
    obtain ⟨-, -, target, -, -, -, htarget, -⟩ :=
      h.exists_written (h.reframed.reach_before (hreach.chain himage hd))
    exact (exists_inspect_chain hp).2 ⟨some target, htarget⟩
  | hashtree _ | property _ | cmdline _ | unknown _ =>
    refine ⟨Findings.empty, inspect_of_target?_eq_none ?_⟩
    rw [hp]
    rfl

theorem exists_verify_again (h : Finished v root found s store store') (hchunk : 1 ≤ v.chunkSize) :
    ∃ found', v.verify store' root = .ok found' := by
  obtain ⟨-, -, image, -, -, -, himage, -⟩ := h.exists_written .root
  exact exists_verify himage fun p hvisits => h.exists_inspect hchunk hvisits

end Finished

/-- Of a hash that names an image its own check alone finds a mismatch, and that if it is stale. -/
theorem hashFinds_of_image {p : Pending} {e : HashDescriptor} {g : Findings} {data : Bytes}
    (hp : p.descriptor = .hash e) (hg : v.inspect store p = .ok g)
    (hdata : store.open? e.partitionName = .ok data) (hmagic : data.take 4 = Header.signature)
    {holder : String} {index size : Int} {digest : Bytes} :
    HashFinds v store p e (.issue (.hashMismatch holder index size digest)) ↔
      holder = p.holder ∧ index = p.index ∧ v.Stale store e size digest := by
  have hbare := PartitionInfo.footer_of_signature hmagic
  obtain ⟨data', hdata', hinfo, hmeasurable⟩ := exists_measurable hp hg
  obtain rfl := Outcome.ok_unique hdata hdata'
  obtain ⟨m, hm⟩ := (measurable_of_bare hbare).1 hmeasurable
  have htake : Measurement.take v.suite store v.chunkSize e (e.sizeIn data) = .ok m := by
    rwa [HashDescriptor.sizeIn_of_bare hbare]
  rw [hashFinds_of_bare hinfo hbare hm, stale_iff hdata htake]
  constructor
  · intro hfinds
    cases hfinds with
    | stale hagrees => exact ⟨rfl, rfl, _, rfl, hagrees, rfl, rfl⟩
  · rintro ⟨rfl, rfl, taken, rfl, hagrees, rfl, rfl⟩
    exact .stale hagrees

/-- **What a repair leaves stale.** If all requests of a repair could be applied, the store can be
verified again. A hash mismatch is then reported exactly for the hashes that were left behind and
are stale: they name images that the repair rewrote. -/
theorem hashMismatch_of_rebuild {means : Means} {limit alignment : Int} {requests : List Request}
    {attempts : List Attempt}
    (hsize : ∀ name data, store.open? name = .ok data → data.length < 1 <<< 63)
    (hchunk : 1 ≤ v.chunkSize) (halign : 1 ≤ alignment)
    (hverify : v.verify store root = .ok found)
    (hrebuild : rebuild means found limit = .ok requests)
    (happly : store.applyAll v.suite alignment requests = (attempts, store'))
    (hok : ∀ attempt ∈ attempts, attempt.succeeded = true) :
    ∃ found', v.verify store' root = .ok found' ∧ ∀ holder (index size : Int) digest,
      .hashMismatch holder index size digest ∈ found'.issues ↔ ∃ (i : Nat) (e : HashDescriptor),
        index = i ∧ v.Visits store' root ⟨holder, i, .hash e⟩ ∧
        v.LeftBehind store requests e ∧ v.Stale store' e size digest := by
  obtain ⟨s, -, hrequests, hfinished⟩ :=
    finished_of_rebuild hsize halign hverify hrebuild happly hok
  obtain ⟨found', hverify'⟩ := hfinished.exists_verify_again hchunk
  obtain ⟨-, -, hissues, -⟩ := verify_eq_ok hverify'
  refine ⟨found', hverify', fun holder index size digest => ?_⟩
  rw [hissues]
  have hleft {p : Pending} {e : HashDescriptor} (hvisits : v.Visits store' root p)
      (hp : p.descriptor = .hash e) : v.HashHolds store' e ∨ v.LeftBehind store requests e ∧
        ∃ data, store'.open? e.partitionName = .ok data ∧ data.take 4 = Header.signature := by
    obtain ⟨name, image, hreach, himage, hmem⟩ := hvisits
    have he := List.mem_of_getElem? (Pending.mem_ofImage.1 hmem).2
    exact hfinished.hashHolds_or_leftBehind hchunk hrequests hreach himage (hp ▸ he)
  constructor
  · intro hfinds
    rcases finds_cases hfinds with ⟨image, -, hfinds⟩ | ⟨⟨q, i, x⟩, e, hvisits, hp, hfinds⟩ |
      ⟨q, d, image, -, -, -, hfinds⟩
    · cases hfinds
    · obtain rfl : x = .hash e := hp
      obtain ⟨g, hg⟩ := hfinished.exists_inspect hchunk hvisits
      have hfinds := hfinds.resolve_left (by simp)
      -- A true hash finds no issue, so the hash is one that was left behind.
      rcases hleft hvisits rfl with hholds | ⟨hleft, data, hdata, hmagic⟩
      · exact absurd hfinds ((hashFinds_clean_iff rfl hg).2 hholds _)
      · obtain ⟨rfl, hindex, hstale⟩ := (hashFinds_of_image rfl hg hdata hmagic).1 hfinds
        exact ⟨i, e, hindex, hvisits, hleft, hstale⟩
    · rcases hfinds with href | hfinds
      · cases href
      · cases hfinds
  · rintro ⟨i, e, rfl, hvisits, ⟨data, hdata, hmagic, -⟩, hstale⟩
    obtain ⟨g, hg⟩ := hfinished.exists_inspect hchunk hvisits
    obtain ⟨data', hdata', hrewritten⟩ := hfinished.written.rewritten hdata
    refine .visit hvisits hg ((holds_inspect_hash rfl hg _).2 (.inr ?_))
    exact (hashFinds_of_image rfl hg hdata' (hrewritten.take_eq_signature hmagic)).2
      ⟨rfl, rfl, hstale⟩

/-- A salted hash, without a digest yet, of the first bytes of the image that holds it. The size of
the image is among them. -/
def selfHash : HashDescriptor :=
  ⟨28, "sha256", "vbmeta", Bytes.zeros 24, [], 0, Bytes.zeros 60⟩

/-- An unsigned image with this hash. -/
def selfImage : Image :=
  { Image.empty with descriptors := [.hash selfHash] }

/-- The bytes of the image. -/
def selfBlob : Bytes :=
  (selfImage.encodeUnsigned .standard 64).1.toOption.getD []

/-- A store with the image. -/
def selfStore : Store :=
  .ofList [("vbmeta", selfBlob)]

/-- The digest that is true of the first bytes. -/
def selfDigest : Bytes :=
  Digest.Sha256.sha256 (Bytes.zeros 24 ++ selfBlob.take 28)

/-- What is found in the store: the hash does not say what is true. -/
def selfFound : Verification where
  root := "vbmeta"
  records := [("vbmeta", ⟨Image.unsignedImage selfImage 168, none⟩)]
  issues := [.hashMismatch "vbmeta" 0 28 selfDigest]
  references := [⟨"vbmeta", "vbmeta", 0⟩]

/-- The request for the image with the hash mended. The digest makes the image longer. -/
def selfRequest : Request where
  partition := "vbmeta"
  image := { Image.unsignedImage selfImage 168 with
    descriptors := [.hash { selfHash with digest := selfDigest }] }
  footer := none
  signer := none

/-- The image is read from its partition. -/
theorem parse_selfStore : selfStore.open? "vbmeta" = .ok selfBlob ∧
    Image.parse .standard selfBlob = .ok (Image.unsignedImage selfImage 168) := by
  have hrange : selfImage.InRange := by
    refine Image.inRange_of_descriptors (List.forall_mem_singleton.2 ?_)
    refine ⟨?_, ?_, ?_, ?_, ?_, ?_, ?_⟩
    all_goals decide
  exact ⟨rfl, Image.parse_getD_encodeUnsigned (by decide +kernel) (by decide +kernel) hrange
    (by decide)⟩

/-- The verification of an unsigned image whose only descriptor is a hash of a partition without a
footer, which does not agree with what is measured. -/
theorem verify_of_singleHash {data contents : Bytes} {image : Image} {d : HashDescriptor}
    {m : Measurement} (hopen : store.open? root = .ok data)
    (hparse : Image.parse v.suite data = .ok image) (hkey : image.publicKey = none)
    (hdescriptors : image.descriptors = [.hash d])
    (hcontents : store.open? d.partitionName = .ok contents)
    (hbare : (PartitionInfo.probe contents).bind (·.footer) = none)
    (htake : Measurement.take v.suite store v.chunkSize d d.imageSize = .ok (some m))
    (hagrees : m.agrees d = false) :
    v.verify store root = .ok {
      root
      records := [(root, ⟨image, none⟩)]
      issues := [.hashMismatch root 0 m.size m.digest]
      references := [⟨d.partitionName, root, 0⟩] } := by
  have henter : v.enter store root Findings.empty =
      .ok ([⟨root, 0, .hash d⟩], ⟨[root], [], []⟩) := by
    refine Outcome.bind_eq_ok.2 ⟨_, Store.image_of_parse hopen hparse, ?_⟩
    simp only [Pending.ofImage, hdescriptors, hkey]
    rfl
  have hcheck : v.checkHashDescriptor store ⟨root, 0, .hash d⟩ d ⟨[root], [], []⟩ =
      .ok ⟨[root], [.hashMismatch root 0 m.size m.digest], [⟨d.partitionName, root, 0⟩]⟩ :=
    checkHashDescriptor_of_bare hcontents hbare htake hagrees
  refine Outcome.bind_eq_ok.2 ⟨_, henter, Outcome.bind_eq_ok.2
    ⟨⟨[root], [.hashMismatch root 0 m.size m.digest], [⟨d.partitionName, root, 0⟩]⟩, ?_, ?_⟩⟩
  · exact (walk_of_hash rfl hcheck).trans walk_nil
  · rw [records_cons (recordOf?_of_parse hopen hparse)]
    rfl

/-- The verification of the store finds the one issue. -/
theorem verify_selfStore :
    verify ⟨.standard, defaultChunkSize⟩ selfStore "vbmeta" = .ok selfFound := by
  obtain ⟨hopen, hparse⟩ := parse_selfStore
  have hbare := PartitionInfo.footer_of_signature (Image.take_of_parse hparse)
  have htake : Measurement.take .standard selfStore defaultChunkSize selfHash 28 =
      .ok (some ⟨28, selfDigest⟩) := by
    have hlength : min 28 (selfBlob.length : Int) = 28 := by decide +kernel
    rw [@Measurement.take_of_plain .standard selfStore defaultChunkSize selfHash selfBlob _
      (by decide) hopen rfl, Measurement.ofData, hlength,
      Measurement.payload_of_nonneg (by decide)]
    rfl
  exact @verify_of_singleHash ⟨.standard, defaultChunkSize⟩ selfStore "vbmeta" selfBlob selfBlob
    _ selfHash _ hopen hparse rfl rfl hopen hbare htake rfl

/-- The file that the request leaves behind. -/
def selfFile : Bytes :=
  Bytes.overwrite selfBlob 0 ((selfRequest.encode .standard 64).1.toOption.getD [])

/-- The request is applied, and the mended hash is read back. -/
theorem open_selfStore : ∃ image,
    (selfStore.applyAll .standard 64 [selfRequest]).2.open? "vbmeta" = .ok selfFile ∧
    PartitionInfo.readImage .standard selfFile = .ok (some image) ∧
    selfFile.take 4 = Header.signature ∧
    image.descriptors = [.hash { selfHash with digest := selfDigest }] := by
  have hok : ∀ attempt ∈ (selfStore.applyAll .standard 64 [selfRequest]).1,
      attempt.succeeded = true := by decide +kernel
  have hrange : selfRequest.image.InRange := by
    refine ⟨⟨rfl, rfl, rfl⟩, List.forall_mem_singleton.2 ?_, rfl⟩
    refine ⟨?_, ?_, ?_, ?_, ?_, ?_, ?_⟩
    all_goals decide +kernel
  obtain ⟨data, w, hdata, hwritten, hopen⟩ :=
    (Store.open_applyAll (by decide) (Prod.eta _).symm hok).1 _ List.mem_cons_self
  obtain rfl := Outcome.ok_unique parse_selfStore.1 hdata
  obtain ⟨image, hread, hmagic, hcontents⟩ :=
    Request.readImage_of_bare rfl hwritten hrange (by decide)
  obtain ⟨blob, left, hencode, hfile⟩ := Request.applyInPlace_of_bare rfl hwritten
  have hself : w.file = selfFile := by
    rw [hfile, selfFile, hencode]
    rfl
  rw [hself] at hopen hread hmagic
  exact ⟨image, hopen, hread, hmagic, hcontents.descriptors⟩

/-- The repair of the store writes the digest that was true, which makes the image longer. In the
second verification the size of the image is another, so the hash is stale again. -/
theorem hashMismatch_of_rebuild_selfStore :
    (verify ⟨.standard, defaultChunkSize⟩ selfStore "vbmeta" = .ok selfFound ∧
      rebuild ⟨[], KeyPair.fresh []⟩ selfFound defaultLimit = .ok [selfRequest]) ∧
    ∃ found' digest, verify ⟨.standard, defaultChunkSize⟩
        (selfStore.applyAll .standard 64 [selfRequest]).2 "vbmeta" = .ok found' ∧
      .hashMismatch "vbmeta" 0 28 digest ∈ found'.issues := by
  have hrebuild : rebuild ⟨[], KeyPair.fresh []⟩ selfFound defaultLimit = .ok [selfRequest] := rfl
  have hok : ∀ attempt ∈ (selfStore.applyAll .standard 64 [selfRequest]).1,
      attempt.succeeded = true := by decide +kernel
  have hsize : ∀ name data, selfStore.open? name = .ok data → data.length < 1 <<< 63 := by
    intro name data hdata
    unfold Store.open? at hdata
    rw [selfStore, Store.ofList, Entries.lookup_cons] at hdata
    by_cases hname : name = "vbmeta"
    · rw [if_pos hname] at hdata
      obtain rfl := Except.ok.inj hdata
      decide +kernel
    · rw [if_neg hname] at hdata
      cases hdata
  obtain ⟨found', hverify', hissues⟩ := hashMismatch_of_rebuild hsize (by decide) (by decide)
    verify_selfStore hrebuild (Prod.eta (selfStore.applyAll .standard 64 [selfRequest])).symm hok
  -- The hash covers the first 28 bytes of its own image, and the repair has changed the header
  -- among them.
  refine ⟨⟨verify_selfStore, hrebuild⟩, found',
    Digest.Sha256.sha256 (Bytes.zeros 24 ++ selfFile.take 28), hverify', ?_⟩
  obtain ⟨hopen, hparse⟩ := parse_selfStore
  obtain ⟨image, hopen', hread, hmagic', hdescriptors⟩ := open_selfStore
  have hbare := PartitionInfo.footer_of_signature hmagic'
  have hlength : 28 ≤ selfBlob.length ∧ 28 ≤ selfFile.length := by decide +kernel
  have hdiffers : Digest.Sha256.sha256 (Bytes.zeros 24 ++ selfFile.take 28) ≠ selfDigest := by
    decide +kernel
  have hfront (data : Bytes) : Digest.Sha256.sha256 (Bytes.zeros 24 ++ data.take 28) =
      Digest.Sha256.sha256 (Bytes.zeros 24 ++ Measurement.payload defaultChunkSize data 28) := by
    rw [Measurement.payload_of_nonneg (by decide), show (28 : Int).toNat = 28 from rfl]
  -- The mended hash is read back, it has the digest of the old image, and that is not the one of
  -- the new image.
  refine (hissues _ _ _ _).2 ⟨0, { selfHash with digest := selfDigest }, rfl, ?_, ?_, ?_⟩
  · refine ⟨"vbmeta", image, .root, Store.image_eq_ok.2 ⟨_, hopen', hread⟩, ?_⟩
    exact Pending.mem_ofImage.2 ⟨rfl, by rw [hdescriptors]; rfl⟩
  · refine ⟨selfBlob, hopen, Image.take_of_parse hparse, ⟨_, rfl, ?_, ?_⟩, _,
      List.mem_cons_self, rfl⟩
    · exact Int.ofNat_le.2 hlength.1
    · exact hfront selfBlob
  · refine ⟨selfFile, _, hopen', rfl, ?_, ?_, fun h => hdiffers h.2⟩
    · rw [HashDescriptor.sizeIn_of_bare hbare]
      exact (Int.min_eq_left (Int.ofNat_le.2 hlength.2)).symm
    · exact hfront selfFile

end Verifier

end VerifiedBoot
