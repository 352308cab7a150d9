import VerifiedBoot.Proofs.Image.Encodable
import VerifiedBoot.Proofs.KeyPair
import VerifiedBoot.Proofs.Partition.Placement
import VerifiedBoot.Proofs.Repair.Extent

/-!
# A repair leaves a clean chain

When the requests of a repair are applied, the store is consistent: it is verified without an issue,
and the same descriptors vouch for the same partitions as before.

What was measured before the repair is still true after it, because a partition that is no image
itself keeps the bytes that its hashes speak of. A partition that is an image itself does not, so no
hash may name one.
-/

namespace VerifiedBoot

/-- Whether a hash says what is true of the contents of a partition, and goes by their footer if
there is one. -/
def HashDescriptor.Describes (v : Verifier) (data : Bytes) (e : HashDescriptor) : Prop :=
  e.Matches v data ∧ ∀ footer, Footed data footer → e.imageSize = footer.originalImageSize

/-- A hash describes the contents of which it says what was measured. -/
theorem HashDescriptor.describes_of_measures {v : Verifier} {store : Store} {data : Bytes}
    {d e : HashDescriptor} {m : Measurement} (hdata : store.open? d.partitionName = .ok data)
    (hm : v.Measures store d m) (halgorithm : e.hashAlgorithm = d.hashAlgorithm)
    (hsalt : e.salt = d.salt) (hsize : e.imageSize = m.size) (hdigest : e.digest = m.digest) :
    e.Describes v data := by
  obtain ⟨data₀, hdata₀, htake⟩ := hm
  obtain rfl := Outcome.ok_unique hdata hdata₀
  rcases Measurement.take_eq_ok htake with ⟨-, hnone⟩ | ⟨digest, data₁, hnamed, hdata₁, hsome⟩
  · cases hnone
  obtain rfl := Outcome.ok_unique hdata hdata₁
  obtain rfl := Option.some.inj hsome
  change e.imageSize = min (d.sizeIn data) data.length at hsize
  change e.digest =
    digest (d.salt ++ Measurement.payload v.chunkSize data (d.sizeIn data)) at hdigest
  rw [← halgorithm] at hnamed
  rw [← hsalt, ← Measurement.payload_min, ← hsize] at hdigest
  refine ⟨⟨digest, hnamed, by omega, hdigest⟩, fun footer hfooted => ?_⟩
  -- With a footer the size that was measured is the one in it.
  have hle := PartitionInfo.originalImageSize_le hfooted
  rw [HashDescriptor.sizeIn_of_footed (PartitionInfo.probe_eq_footer.2 hfooted)] at hsize
  omega

namespace Rewritten

variable {data data' : Bytes}

/-- A partition that has a footer had one before. -/
theorem footed_before (h : Rewritten data data') (himage : data.take 4 ≠ Header.signature)
    {footer : Footer} (hfooted : Footed data' footer) : ∃ footer, Footed data footer := by
  cases h with
  | same => exact ⟨footer, hfooted⟩
  | bare hmagic _ => exact absurd hmagic himage
  | footed hbefore _ _ _ => exact ⟨_, hbefore⟩

/-- A partition that is an image itself stays one. -/
theorem take_eq_signature (h : Rewritten data data') (hmagic : data.take 4 = Header.signature) :
    data'.take 4 = Header.signature := by
  cases h with
  | same => exact hmagic
  | bare _ hmagic' => exact hmagic'
  | footed hfooted _ _ _ => exact absurd hmagic hfooted.noImage

/-- What describes a partition that is no image itself describes the new contents. -/
theorem describes {v : Verifier} {e : HashDescriptor} (h : Rewritten data data')
    (himage : data.take 4 ≠ Header.signature) (hchunk : 1 ≤ v.chunkSize)
    (he : e.Describes v data) : e.Describes v data' := by
  cases h with
  | same => exact he
  | bare hmagic _ => exact absurd hmagic himage
  | @footed _ footer hfooted hlength hfront hfound =>
    -- The hash speaks of the partition's own image, and this is what stays.
    obtain ⟨⟨digest, hnamed, hle, hdigest⟩, hfooter⟩ := he
    have himageSize := hfooter footer hfooted
    refine ⟨⟨digest, hnamed, by omega, ?_⟩, fun footer' hfooted' => ?_⟩
    · rw [Measurement.payload_of_nonneg (by omega), himageSize] at hdigest ⊢
      rw [hfront]
      exact hdigest
    · rw [hfound footer' hfooted', himageSize]

end Rewritten

namespace Verifier

open Repair

variable {v : Verifier} {store store' : Store} {root name : String} {found : Verification}
  {s : State}

/-- A verification whose repair was worked off and written back. -/
structure Finished (v : Verifier) (root : String) (found : Verification) (s : State)
    (store store' : Store) : Prop where
  verified : v.verify store root = .ok found
  valid : ∀ name, .invalidPartitionData name ∉ found.issues
  invariant : Invariant (v.plan store root found) s
  queue : s.queue = []
  written : WrittenBack (v.plan store root found) v.suite s store store'

namespace Finished

/-- Chain descriptors lead to readable images. -/
theorem exists_image (h : Finished v root found s store store')
    (hreach : store.Reach v.suite root name) :
    ∃ image, store.image v.suite name = .ok (some image) := by
  cases hreach with
  | root =>
    obtain ⟨⟨image, himage⟩, -, hissues, -⟩ := verify_eq_ok h.verified
    cases image with
    | none => exact absurd ((hissues _).2 (.enter himage .unreadable)) (h.valid root)
    | some image => exact ⟨image, himage⟩
  | chain hreach hholder hd =>
    obtain ⟨i, hi⟩ := List.getElem?_of_mem hd
    obtain ⟨target, htarget, -⟩ := target_of_chain h.verified h.valid hreach hholder hi
    exact ⟨target, htarget⟩

/-- An image that chain descriptors lead to, in the verification, in the repair and afterwards. -/
theorem exists_written (h : Finished v root found s store store')
    (hreach : store.Reach v.suite root name) :
    ∃ first record image, found.records.lookup name = some first ∧
      s.records.lookup name = some record ∧ record.image.SameFrame first.image ∧
      store'.image v.suite name = .ok (some image) ∧
      image.descriptors = record.image.descriptors ∧
      (ReliablePairs v.suite s → image.publicKey = record.image.publicKey ∧
        (image.publicKey.isSome ∨ (∃ p i, (v.plan store root found).chained p i name) →
          image.signatureValid = true)) := by
  obtain ⟨before, hbefore⟩ := h.exists_image hreach
  obtain ⟨first, hfirst, -⟩ :=
    exists_record h.verified (loaded_of_reach h.verified hreach hbefore) hbefore
  obtain ⟨record, hrecord⟩ := h.invariant.present hfirst
  obtain ⟨first₀, hfirst₀, -, -, hframe, -⟩ := h.invariant.record hrecord
  obtain rfl := Option.some.inj (hfirst.symm.trans hfirst₀)
  obtain ⟨image, himage, hdescriptors, hsigned⟩ := h.written.image hrecord
  refine ⟨first, record, image, hfirst, hrecord, hframe, himage, hdescriptors, fun hreliable => ?_⟩
  obtain ⟨hkey, hvalid⟩ := hsigned hreliable
  rw [hkey]
  exact ⟨rfl, hvalid hreach⟩

/-- The images have the same frames as before. -/
theorem reframed (h : Finished v root found s store store') :
    Store.Reframed v.suite root store store' := by
  intro name hreach
  obtain ⟨first, record, image, hfirst, -, hframe, himage, hdescriptors, -⟩ :=
    h.exists_written hreach
  refine ⟨first.image, image, image_of_record h.verified hfirst, himage, ?_⟩
  rw [Image.SameFrame, hdescriptors]
  exact hframe

/-- A hash that was measured describes what it names as it was before. -/
theorem describes_of_measured (h : Finished v root found s store store') {record : Record} {i : Nat}
    {e : HashDescriptor} {m : Measurement} {data : Bytes}
    (hmeasured : (v.plan store root found).measured name i m)
    (hrecord : s.records.lookup name = some record)
    (he : record.image.descriptors[i]? = some (.hash e))
    (hdata : store.open? e.partitionName = .ok data) : e.Describes v data := by
  obtain ⟨record₀, e₀, hrecord₀, he₀, hsize, hdigest⟩ :=
    (h.invariant.hashes hmeasured).resolve_left fun hwaits => by
      rw [h.queue] at hwaits
      exact absurd hwaits List.not_mem_nil
  obtain rfl := Option.some.inj (hrecord.symm.trans hrecord₀)
  obtain rfl := Descriptor.hash.inj (Option.some.inj (he.symm.trans he₀))
  obtain ⟨first, d, hfirst, hd, hm, -⟩ := hmeasured
  obtain ⟨first₀, hfirst₀, -, -, hframe, -⟩ := h.invariant.record hrecord
  obtain rfl := Option.some.inj (hfirst₀.symm.trans hfirst)
  obtain ⟨d₀, hd₀, hname, halgorithm, hsalt⟩ := hframe.hash he
  obtain rfl := Descriptor.hash.inj (Option.some.inj (hd.symm.trans hd₀))
  rw [← hname] at hdata
  exact HashDescriptor.describes_of_measures hdata hm halgorithm.symm hsalt.symm hsize hdigest

/-- A hash describes what it names as it was before, and it is true afterwards unless it names an
image that was changed. -/
theorem hashHolds_or_changed (h : Finished v root found s store store') (hchunk : 1 ≤ v.chunkSize)
    {image : Image} {e : HashDescriptor} (hreach : store.Reach v.suite root name)
    (himage : store'.image v.suite name = .ok (some image)) (he : .hash e ∈ image.descriptors) :
    ∃ data data', store.open? e.partitionName = .ok data ∧
      store'.open? e.partitionName = .ok data' ∧ e.Matches v data ∧
      (v.HashHolds store' e ∨ data.take 4 = Header.signature ∧ data'.take 4 = Header.signature ∧
        (s.changed.lookup e.partitionName).isSome) := by
  obtain ⟨first, record, image₀, hfirst, hrecord, hframe, himage₀, hdescriptors, -⟩ :=
    h.exists_written hreach
  obtain rfl := Outcome.ok_some_unique himage himage₀
  obtain ⟨i, hi⟩ := List.getElem?_of_mem he
  rw [hdescriptors] at hi
  obtain ⟨d, hd, hname, -⟩ := hframe.hash hi
  have hholder := image_of_record h.verified hfirst
  have hvisits : v.Visits store root ⟨name, i, .hash d⟩ :=
    ⟨name, first.image, hreach, hholder, Pending.mem_ofImage.2 ⟨rfl, hd⟩⟩
  obtain ⟨data, m, hdata, hmeasured, hlast⟩ := measured_of_visits h.verified h.valid hvisits rfl
  rw [hname] at hdata hlast
  obtain ⟨data', hdata', hrewritten⟩ := h.written.rewritten hdata
  have hdescribes := h.describes_of_measured hmeasured hrecord hi hdata
  refine ⟨data, data', hdata, hdata', hdescribes.1, ?_⟩
  by_cases hmagic : data.take 4 = Header.signature
  · have hmagic' := hrewritten.take_eq_signature hmagic
    cases hchanged : s.changed.lookup e.partitionName with
    | some pair => exact .inr ⟨hmagic, hmagic', rfl⟩
    | none =>
      rw [h.written.unchanged hchanged] at hdata'
      obtain rfl := Outcome.ok_unique hdata hdata'
      refine .inl ⟨data, (h.written.unchanged hchanged).trans hdata, hdescribes.1, ?_⟩
      exact fun footer hfooted => absurd hmagic hfooted.noImage
  · obtain ⟨hmatches, hsize⟩ := hrewritten.describes hmagic hchunk hdescribes
    refine .inl ⟨data', hdata', hmatches, fun footer hfooted => ⟨hsize footer hfooted, ?_⟩⟩
    -- The partition has a footer, so it keeps a hash of itself, which was measured as well.
    obtain ⟨before, hbefore⟩ := hrewritten.footed_before hmagic hfooted
    obtain ⟨own, index, c, m', hown, hlastHash, hmeasured'⟩ := hlast before hbefore
    obtain ⟨record', hrecord'⟩ := h.invariant.present hown
    obtain ⟨own₀, hown₀, -, -, hframe', -⟩ := h.invariant.record hrecord'
    obtain rfl := Option.some.inj (hown.symm.trans hown₀)
    obtain ⟨image', himage', hdescriptors', -⟩ := h.written.image hrecord'
    obtain ⟨c', hc'⟩ := Image.SameFrame.lastHash (Eq.symm hframe') hlastHash
    obtain ⟨hat, hname', -⟩ := Image.lastHash_iff.1 hc'
    have hdescribes' := h.describes_of_measured hmeasured' hrecord' hat (hname'.symm ▸ hdata)
    obtain ⟨hmatches', hsize'⟩ := hrewritten.describes hmagic hchunk hdescribes'
    refine ⟨image', index, c', himage', ?_, hsize' footer hfooted, hmatches'⟩
    rw [Image.LastHash, hdescriptors']
    exact hc'

end Finished

/-- A repair that was written back with reliable pairs, where no image has a chain descriptor of its
own partition. -/
structure Repaired (v : Verifier) (root : String) (found : Verification) (s : State)
    (store store' : Store) : Prop extends Finished v root found s store store' where
  reliable : ReliablePairs v.suite s
  apart : ∀ name image d, store.image v.suite name = .ok (some image) →
    .chain d ∈ image.descriptors → d.partitionName ≠ name

namespace Repaired

/-- Chain descriptors vouch for the images that they name. -/
theorem chainHolds (h : Repaired v root found s store store') {image : Image}
    {e : ChainDescriptor} (hreach : store.Reach v.suite root name)
    (himage : store'.image v.suite name = .ok (some image)) (he : .chain e ∈ image.descriptors) :
    v.ChainHolds store' e := by
  obtain ⟨first, record, image₀, hfirst, hrecord, hframe, himage₀, hdescriptors, -⟩ :=
    h.exists_written hreach
  obtain rfl := Outcome.ok_some_unique himage himage₀
  obtain ⟨i, hi⟩ := List.getElem?_of_mem he
  rw [hdescriptors] at hi
  obtain ⟨d, hd, hname⟩ := hframe.chain hi
  have hholder := image_of_record h.verified hfirst
  have hne : name ≠ e.partitionName := by
    rw [← hname]
    exact (h.apart name first.image d hholder (List.mem_of_getElem? hd)).symm
  have hchained : (v.plan store root found).chained name i e.partitionName :=
    ⟨first.image, d, hreach, hholder, hd, hname⟩
  have hreach' : store.Reach v.suite root e.partitionName := by
    rw [← hname]
    exact hreach.chain hholder (List.mem_of_getElem? hd)
  -- The image that is named was reached before the repair, so it was signed or left as valid as it
  -- was.
  obtain ⟨_, target, image', -, htarget, -, himage', -, hwritten⟩ := h.exists_written hreach'
  obtain ⟨hkey, hvalid⟩ := hwritten h.reliable
  have hsigned := hvalid (.inr ⟨name, i, hchained⟩)
  obtain ⟨key, hembedded⟩ := publicKey_of_signatureValid himage' hsigned
  refine ⟨image', key, himage', hsigned, hembedded, ?_⟩
  rw [hkey] at hembedded
  -- Nothing waits any more, so the key that is due is the one that the descriptor has.
  rcases h.invariant.keys hchained hne hrecord hi htarget with hdue | hnone
  · rw [h.queue] at hdue
    exact hdue.trans hembedded
  · exact absurd (hembedded.symm.trans hnone) (by simp)

/-- The store is consistent. -/
theorem consistent (h : Repaired v root found s store store') (hchunk : 1 ≤ v.chunkSize)
    (hnames : ∀ name image d data, store.image v.suite name = .ok (some image) →
      .hash d ∈ image.descriptors → store.open? d.partitionName = .ok data →
      data.take 4 ≠ Header.signature) : v.Consistent store' root where
  readable name hreach := by
    obtain ⟨-, -, image, -, -, -, himage, -⟩ := h.exists_written (h.reframed.reach_before hreach)
    exact ⟨image, himage⟩
  signed name image hreach himage hkey := by
    obtain ⟨-, _, image₀, -, -, -, himage₀, -, hwritten⟩ :=
      h.exists_written (h.reframed.reach_before hreach)
    obtain rfl := Outcome.ok_some_unique himage himage₀
    exact (hwritten h.reliable).2 (.inl hkey)
  chained name image d hreach himage hd :=
    h.chainHolds (h.reframed.reach_before hreach) himage hd
  hashed name image e hreach himage he := by
    have hbefore := h.reframed.reach_before hreach
    obtain ⟨data, _, hdata, -, -, hholds⟩ := h.hashHolds_or_changed hchunk hbefore himage he
    refine hholds.resolve_right fun ⟨hmagic, _⟩ => ?_
    -- The hash names what its counterpart named before.
    obtain ⟨before, found, hholder, himage₀, hframe⟩ := h.reframed name hbefore
    obtain rfl := Outcome.ok_some_unique himage himage₀
    obtain ⟨i, hi⟩ := List.getElem?_of_mem he
    obtain ⟨d, hd, hname, -⟩ := hframe.hash hi
    rw [← hname] at hdata
    exact hnames name before d data hholder (List.mem_of_getElem? hd) hdata hmagic

end Repaired

/-- A repair that was written back, as the invariant of the repair has it. -/
theorem finished_of_rebuild {means : Means} {limit alignment : Int} {requests : List Request}
    {attempts : List Attempt}
    (hsize : ∀ name data, store.open? name = .ok data → data.length < 1 <<< 63)
    (halign : 1 ≤ alignment) (hverify : v.verify store root = .ok found)
    (hrebuild : rebuild means found limit = .ok requests)
    (happly : store.applyAll v.suite alignment requests = (attempts, store'))
    (hok : ∀ attempt ∈ attempts, attempt.succeeded = true) :
    ∃ s, (State.ofVerification found).drain means limit.toNat = .ok s ∧
      s.changed.mapM (fun (name, pair) => s.request name pair) = .ok requests ∧
      Finished v root found s store store' := by
  obtain ⟨s, hdrain, hrequests⟩ := Outcome.bind_eq_ok.1 hrebuild
  have hvalid := valid_of_drain hdrain
  have hstart := invariant_ofVerification hverify hvalid
  have hsound := plan_sound hverify
  obtain ⟨hinvariant, hqueue⟩ := hstart.drain hsound hdrain
  have hrange := (imagesInRange_ofVerification hverify hsize).drain hstart hsound
    (plan_bounded hverify hsize) hdrain
  exact ⟨s, hdrain, hrequests, hverify, hvalid, hinvariant, hqueue,
    writtenBack_of_applyAll hverify hsize hinvariant hrange hqueue hrequests happly hok halign⟩

/-- A repair that was written back with reliable pairs. -/
theorem repaired_of_rebuild {means : Means} {limit alignment : Int} {requests : List Request}
    {attempts : List Attempt}
    (hsize : ∀ name data, store.open? name = .ok data → data.length < 1 <<< 48)
    (halign : 1 ≤ alignment)
    (hself : ∀ name image d, store.image v.suite name = .ok (some image) →
      .chain d ∈ image.descriptors → d.partitionName ≠ name)
    (hring : ∀ pair ∈ means.keyring, pair.Reliable v.suite)
    (hfresh : ∀ bits pair, means.generate bits = .ok pair → pair.Reliable v.suite)
    (hverify : v.verify store root = .ok found)
    (hrebuild : rebuild means found limit = .ok requests)
    (happly : store.applyAll v.suite alignment requests = (attempts, store'))
    (hok : ∀ attempt ∈ attempts, attempt.succeeded = true) :
    ∃ s, Repaired v root found s store store' := by
  have hlength (name : String) (data : Bytes) (hopen : store.open? name = .ok data) :
      data.length < 1 <<< 63 :=
    Nat.lt_trans (hsize name data hopen) (by decide)
  obtain ⟨s, hdrain, -, hfinished⟩ :=
    finished_of_rebuild hlength halign hverify hrebuild happly hok
  have hreliable := (reliablePairs_ofVerification found).drain hring hfresh hdrain
  exact ⟨s, hfinished, hreliable, hself⟩

/-- **A repair leads to a clean chain.** If all requests of a repair could be applied, the store is
verified without an error and without an issue, and the references are the same as before. No image
may have a chain descriptor of its own partition, no hash may name a partition that is an image
itself, and the pairs that sign have to be reliable. -/
theorem verify_of_rebuild {means : Means} {limit alignment : Int} {requests : List Request}
    {attempts : List Attempt}
    (hsize : ∀ name data, store.open? name = .ok data → data.length < 1 <<< 48)
    (hchunk : 1 ≤ v.chunkSize) (halign : 1 ≤ alignment)
    (hself : ∀ name image d, store.image v.suite name = .ok (some image) →
      .chain d ∈ image.descriptors → d.partitionName ≠ name)
    (hnames : ∀ name image d data, store.image v.suite name = .ok (some image) →
      .hash d ∈ image.descriptors → store.open? d.partitionName = .ok data →
      data.take 4 ≠ Header.signature)
    (hring : ∀ pair ∈ means.keyring, pair.Reliable v.suite)
    (hfresh : ∀ bits pair, means.generate bits = .ok pair → pair.Reliable v.suite)
    (hverify : v.verify store root = .ok found)
    (hrebuild : rebuild means found limit = .ok requests)
    (happly : store.applyAll v.suite alignment requests = (attempts, store'))
    (hok : ∀ attempt ∈ attempts, attempt.succeeded = true) :
    ∃ found', v.verify store' root = .ok found' ∧ found'.issues = [] ∧
      ∀ r, r ∈ found'.references ↔ r ∈ found.references := by
  obtain ⟨s, hrepaired⟩ :=
    repaired_of_rebuild hsize halign hself hring hfresh hverify hrebuild happly hok
  obtain ⟨found', hverify', hissues⟩ := (hrepaired.consistent hchunk hnames).verify hchunk
  refine ⟨found', hverify', hissues, fun r => ⟨fun hr => ?_, fun hr => ?_⟩⟩
  -- The two stores have the same frame, whichever of them is looked at first.
  · exact hrepaired.reframed.references_before hverify hverify' hr
  · exact hrepaired.reframed.symm.references_before hverify' hverify hr

theorem reliable_smooth : KeyPair.smooth.Reliable .standard := by
  obtain ⟨-, hbits, hfills, hgcd⟩ := KeyPair.ofKey_smoothKey
  exact ⟨KeyPair.consistent_smooth.publicKey, Suite.accepts_ofDigests hgcd, hfills.trans hbits.symm⟩

/-- A hash that says that the first five bytes of a partition have an empty digest. -/
def staleHash : HashDescriptor :=
  ⟨5, "sha256", "boot", [9], [], 0, Bytes.zeros 60⟩

theorem inRange_staleHash : staleHash.InRange := by
  refine ⟨?_, ?_, ?_, ?_, ?_, ?_, ?_⟩
  all_goals decide

/-- An unsigned image with this hash. -/
def staleImage : Image :=
  { Image.empty with descriptors := [.hash staleHash] }

theorem inRange_staleImage : staleImage.InRange :=
  Image.inRange_of_descriptors (List.forall_mem_singleton.2 inRange_staleHash)

/-- The digest that the hash should have. -/
def trueDigest : Bytes := [
  0x5d, 0xda, 0x63, 0xe1, 0xb7, 0xd4, 0xe6, 0x23, 0x46, 0x9d, 0xc0, 0xc8, 0xd7, 0x09, 0x76, 0x13,
  0x1f, 0x2f, 0x78, 0x35, 0x88, 0x10, 0x6b, 0xd3, 0xd5, 0xce, 0xa1, 0x43, 0xb5, 0x03, 0x17, 0xbc]

/-- It is the digest of the salt and four bytes. -/
theorem sha256_trueDigest : Digest.Sha256.sha256 [9, 1, 2, 3, 4] = trueDigest := by
  decide +kernel

/-- The footer of a partition with four bytes of its own and an image behind them. -/
def frontFooter : Footer :=
  { Footer.empty with originalImageSize := 4, vbmetaOffset := 4, vbmetaSize := 448 }

/-- A partition of 2048 bytes with this footer, whose image has a hash of the four bytes that does
not say what is true. -/
def footedData : Bytes :=
  [1, 2, 3, 4] ++ ((staleImage.encodeUnsigned .standard 64).1.toOption.getD [] ++
    Bytes.padTo 1532 [] ++ frontFooter.encode.toOption.getD [])

/-- A store with this partition, and with an image that chains the one in it. -/
def footedStore : Store :=
  .ofList [
    ("vbmeta", (chainImage.encodeUnsigned .standard 64).1.toOption.getD []),
    ("boot", footedData)]

/-- What is found in the store: the chained image is not signed, and its hash is not true. -/
def footedFound : Verification where
  root := "vbmeta"
  records := [
    ("vbmeta", ⟨Image.unsignedImage chainImage 96, none⟩),
    ("boot", ⟨Image.unsignedImage staleImage 144, some frontFooter⟩)]
  issues := [.invalidSignature "boot", .hashMismatch "boot" 0 4 trueDigest]
  references := [⟨"boot", "vbmeta", 0⟩, ⟨"boot", "boot", 0⟩]

/-- The chained image is to be signed with a new pair, with its hash mended. -/
def bootRequest : Request where
  partition := "boot"
  image := { Image.unsignedImage staleImage 144 with
    header := { (Image.unsignedImage staleImage 144).header with algorithmType := 1 }
    descriptors := [.hash { staleHash with imageSize := 4, digest := trueDigest }]
    publicKey := some KeyPair.smooth.publicKey }
  footer := some frontFooter
  signer := some KeyPair.smooth

/-- The chain descriptor is to have the key of this pair. -/
def chainRequest : Request where
  partition := "vbmeta"
  image := { Image.unsignedImage chainImage 96 with
    descriptors := [.chain { bareChain with publicKey := some KeyPair.smooth.publicKey }] }
  footer := none
  signer := none

theorem rebuild_footedFound :
    rebuild ⟨[], KeyPair.fresh [Rsa.smoothKey]⟩ footedFound defaultLimit =
      .ok [bootRequest, chainRequest] :=
  Outcome.toOption_eq_some.1 (by decide +kernel)

theorem probe_footedData : footedData.length = 2048 ∧
    PartitionInfo.probe footedData = some ⟨1984, some frontFooter⟩ := by
  decide +kernel

theorem encodeUnsigned_footedStore :
    ((chainImage.encodeUnsigned .standard 64).1.toOption.getD []).length = 384 ∧
      (staleImage.encodeUnsigned .standard 64).1.toBool = true ∧
      (staleImage.encodeUnsigned .standard 64).2.header.descriptorsSize = 144 := by
  decide +kernel

/-- The image in front of the footer is read behind the four bytes. -/
theorem parse_footedData : Image.parse .standard (footedData.drop 4) =
    .ok (Image.unsignedImage staleImage 144) := by
  obtain ⟨-, hok, hsize⟩ := encodeUnsigned_footedStore
  obtain ⟨blob, written, hwritten⟩ := Outcome.exists_of_toBool hok
  obtain ⟨n, hn, hparse⟩ :=
    @Image.parse_encodeUnsigned .standard _ _ _ _ hwritten inRange_staleImage (by decide)
  obtain rfl : n = 144 := by
    rw [hwritten, hn] at hsize
    exact Int.ofNat_inj.1 hsize
  have hdrop : footedData.drop 4 =
      blob ++ (Bytes.padTo 1532 [] ++ frontFooter.encode.toOption.getD []) := by
    unfold footedData
    rw [hwritten, List.append_assoc]
    rfl
  rw [hdrop]
  exact hparse _

/-- Both images are read from their partitions. -/
theorem image_footedStore :
    (footedStore.open? "vbmeta" =
        .ok ((chainImage.encodeUnsigned .standard 64).1.toOption.getD []) ∧
      Image.parse .standard ((chainImage.encodeUnsigned .standard 64).1.toOption.getD []) =
        .ok (Image.unsignedImage chainImage 96)) ∧
    footedStore.open? "boot" = .ok footedData ∧
      footedStore.image .standard "boot" = .ok (some (Image.unsignedImage staleImage 144)) := by
  have hread : PartitionInfo.readImage .standard footedData =
      .ok (some (Image.unsignedImage staleImage 144)) :=
    PartitionInfo.readImage_eq_some.2 ⟨_, probe_footedData.2, parse_footedData⟩
  -- The image that chains the other one is that of the store of unsigned images.
  obtain ⟨blob, -, ⟨hblob, hparse⟩, -⟩ := parse_chainStore
  obtain rfl : (chainImage.encodeUnsigned .standard 64).1.toOption.getD [] = blob := by
    simpa [chainStore, Store.ofList, Store.open?] using hblob
  exact ⟨⟨rfl, hparse⟩, rfl, Store.image_eq_ok.2 ⟨footedData, rfl, hread⟩⟩

/-- The verification of the store finds the two issues. -/
theorem verify_footedStore :
    verify ⟨.standard, defaultChunkSize⟩ footedStore "vbmeta" = .ok footedFound := by
  obtain ⟨⟨hopen, hparse⟩, hopen', himage'⟩ := image_footedStore
  have hrecord := @recordOf?_of_parse ⟨.standard, defaultChunkSize⟩ _ _ _ _ hopen hparse
  have hrecord' : recordOf? ⟨.standard, defaultChunkSize⟩ footedStore "boot" =
      some ⟨Image.unsignedImage staleImage 144, some frontFooter⟩ :=
    recordOf?_eq_some.2 ⟨footedData, _, hopen', probe_footedData.2, parse_footedData, rfl⟩
  have htake : Measurement.take .standard footedStore defaultChunkSize staleHash 4 =
      .ok (some ⟨4, trueDigest⟩) := by
    have hlength : min 4 (footedData.length : Int) = 4 := by
      rw [probe_footedData.1]
      rfl
    have hpayload : staleHash.salt ++ footedData.take (4 : Int).toNat = [9, 1, 2, 3, 4] := rfl
    rw [@Measurement.take_of_plain .standard footedStore defaultChunkSize staleHash footedData _
      (by decide) hopen' rfl, Measurement.ofData, hlength,
      Measurement.payload_of_nonneg (by decide), hpayload, sha256_trueDigest]
  have hcheck : checkChainDescriptor ⟨.standard, defaultChunkSize⟩ footedStore
      ⟨"vbmeta", 0, .chain bareChain⟩ bareChain ⟨["vbmeta"], [], []⟩ =
        .ok (true, ⟨["vbmeta", "boot"], [.invalidSignature "boot"], [⟨"boot", "vbmeta", 0⟩]⟩) :=
    Outcome.bind_eq_ok.2 ⟨_, himage', rfl⟩
  have henter : enter ⟨.standard, defaultChunkSize⟩ footedStore "boot"
      ⟨["vbmeta", "boot"], [.invalidSignature "boot"], [⟨"boot", "vbmeta", 0⟩]⟩ =
        .ok ([⟨"boot", 0, .hash staleHash⟩],
          ⟨["vbmeta", "boot"], [.invalidSignature "boot"], [⟨"boot", "vbmeta", 0⟩]⟩) :=
    Outcome.bind_eq_ok.2 ⟨_, himage', rfl⟩
  have hcheck' : checkHashDescriptor ⟨.standard, defaultChunkSize⟩ footedStore
      ⟨"boot", 0, .hash staleHash⟩ staleHash
        ⟨["vbmeta", "boot"], [.invalidSignature "boot"], [⟨"boot", "vbmeta", 0⟩]⟩ =
          .ok ⟨["vbmeta", "boot"], footedFound.issues, footedFound.references⟩ := by
    rw [@checkHashDescriptor_of_embedded ⟨.standard, defaultChunkSize⟩ footedStore
      ⟨"boot", 0, .hash staleHash⟩ _ footedData staleHash staleHash frontFooter _ 0 _ _ hopen'
      (congrArg (·.bind (·.footer)) probe_footedData.2) himage' rfl htake htake rfl rfl]
    -- The hash is its own counterpart, so it is reported once.
    exact congrArg Except.ok (if_pos List.mem_concat_self)
  refine Outcome.bind_eq_ok.2 ⟨([⟨"vbmeta", 0, .chain bareChain⟩], ⟨["vbmeta"], [], []⟩),
    Outcome.bind_eq_ok.2 ⟨_, Store.image_of_parse hopen hparse, rfl⟩, Outcome.bind_eq_ok.2
      ⟨⟨["vbmeta", "boot"], footedFound.issues, footedFound.references⟩, ?_, ?_⟩⟩
  · have hleft : bareChain.partitionName ∈ without footedStore.names "vbmeta" := by decide
    rw [walk_of_chain rfl hcheck hleft henter]
    exact (walk_of_hash rfl hcheck').trans walk_nil
  · rw [records_cons hrecord, records_cons hrecord']
    rfl

/-- There are no images in the store but the two. -/
theorem descriptors_of_footedStore {image : Image}
    (h : footedStore.image .standard name = .ok (some image)) :
    name = "vbmeta" ∧ image.descriptors = [.chain bareChain] ∨
      name = "boot" ∧ image.descriptors = [.hash staleHash] := by
  obtain ⟨⟨hopen, hparse⟩, -, himage⟩ := image_footedStore
  obtain ⟨data, hdata, -⟩ := Store.image_eq_ok.1 h
  have hname : name ∈ ["vbmeta", "boot"] := Store.mem_names_of_open hdata
  simp only [List.mem_cons, List.not_mem_nil, or_false] at hname
  rcases hname with rfl | rfl
  · rw [Store.image_of_parse hopen hparse] at h
    obtain rfl := Option.some.inj (Except.ok.inj h)
    exact .inl ⟨rfl, rfl⟩
  · obtain rfl := Outcome.ok_some_unique himage h
    exact .inr ⟨rfl, rfl⟩

/-- The image behind the four bytes can be signed, and its blob has room in front of the footer. -/
theorem exists_applyInPlace_bootRequest :
    ∃ w, bootRequest.applyInPlace .standard footedData 64 = (.ok (), w) := by
  obtain ⟨hdata, hprobe⟩ := probe_footedData
  have hfooted := PartitionInfo.probe_eq_footer.1 (congrArg (·.bind (·.footer)) hprobe)
  have hread : (Image.unsignedImage staleImage 144).Writable := by
    refine Image.writable_of_parse parse_footedData ?_
    rw [List.length_drop, hdata]
    decide
  have hwritable : bootRequest.image.Writable := by
    refine ⟨Header.Resized.inRange ⟨.signed .sha256 .rsa2048, rfl, rfl⟩ hread.header, ?_⟩
    refine List.forall_mem_singleton.2 ?_
    exact { inRange_staleHash with imageSize := by decide, digest := by decide }
  have hwhole : ¬bootRequest.image.Unaligned := by
    rintro ⟨d, hd, hunaligned⟩
    obtain rfl := List.mem_singleton.1 hd
    exact hunaligned
  have hsize : bootRequest.image.signedSize (.signed .sha256 .rsa2048) = 1280 := by decide
  -- The pair signs every message, so no digest has to be computed.
  have hpair := KeyPair.consistent_smooth
  have hbits : KeyPair.smooth.bits = KeySize.rsa2048.bits := KeyPair.ofKey_smoothKey.2.1
  obtain ⟨blob, hblob⟩ := (@Image.encodeSigned_isOk_iff .standard bootRequest.image 64 _ .sha256
    .rsa2048 _ rfl hpair.publicKey hbits hwritable (by decide)
    (Suite.signs_ofDigests hpair hbits .sha256)).2 ⟨hwhole, by rw [hsize]; decide⟩
  obtain ⟨-, hround, -⟩ := Image.length_of_encodeSigned rfl hwritable (by decide) hblob
  rw [hsize] at hround
  refine Request.exists_applyInPlace rfl (Footer.inRange_of_decode hfooted.decode).holds ?_
    ((Request.encode_of_signer rfl).trans hblob) ?_
  · rw [hdata]
    decide
  · rw [hround, hdata]
    decide

/-- Both requests are applied. -/
theorem exists_applyAll_footedStore : ∃ attempts store',
    footedStore.applyAll .standard 64 [bootRequest, chainRequest] = (attempts, store') ∧
      ∀ attempt ∈ attempts, attempt.succeeded = true := by
  have hbare : (chainRequest.applyInPlace .standard
      ((chainImage.encodeUnsigned .standard 64).1.toOption.getD []) 64).1.toBool = true := by
    decide +kernel
  obtain ⟨w, hw⟩ := exists_applyInPlace_bootRequest
  obtain ⟨⟨⟩, w', hw'⟩ := Outcome.exists_of_toBool hbare
  refine ⟨_, _, (Prod.eta _).symm, Store.succeeded_of_applyAll (by decide) ?_⟩
  rw [List.forall_mem_cons, List.forall_mem_singleton]
  exact ⟨⟨footedData, w, rfl, hw⟩, ⟨_, w', rfl, hw'⟩⟩

/-- The chained image gets a new pair and a hash that is true, behind the four bytes of its
partition, and its key goes to the chain descriptor. Then the store is clean. -/
theorem verify_of_rebuild_footedStore :
    (verify ⟨.standard, defaultChunkSize⟩ footedStore "vbmeta" = .ok footedFound ∧
      rebuild ⟨[], KeyPair.fresh [Rsa.smoothKey]⟩ footedFound defaultLimit =
        .ok [bootRequest, chainRequest]) ∧
    ∃ attempts store' found',
      footedStore.applyAll .standard 64 [bootRequest, chainRequest] = (attempts, store') ∧
      (∀ attempt ∈ attempts, attempt.succeeded = true) ∧
      verify ⟨.standard, defaultChunkSize⟩ store' "vbmeta" = .ok found' ∧ found'.issues = [] ∧
      ∀ r, r ∈ found'.references ↔ r ∈ footedFound.references := by
  have hsize : ∀ e ∈ footedStore.partitions, e.2.length < 1 <<< 48 := by
    refine List.forall_mem_cons.2 ⟨?_, List.forall_mem_singleton.2 ?_⟩
    · rw [encodeUnsigned_footedStore.1]
      decide
    · rw [probe_footedData.1]
      decide
  have hself : ∀ name image d, footedStore.image .standard name = .ok (some image) →
      .chain d ∈ image.descriptors → d.partitionName ≠ name := by
    intro name image d himage hd
    -- The first image has the one chain descriptor and the second one the one hash.
    rcases descriptors_of_footedStore himage with ⟨rfl, heq⟩ | ⟨rfl, heq⟩
    · rw [heq] at hd
      obtain rfl := Descriptor.chain.inj (List.mem_singleton.1 hd)
      decide
    · rw [heq] at hd
      cases List.mem_singleton.1 hd
  have hnames : ∀ name image d data, footedStore.image .standard name = .ok (some image) →
      .hash d ∈ image.descriptors → footedStore.open? d.partitionName = .ok data →
      data.take 4 ≠ Header.signature := by
    intro name image d data himage hd hopen
    rcases descriptors_of_footedStore himage with ⟨rfl, heq⟩ | ⟨rfl, heq⟩
    · rw [heq] at hd
      cases List.mem_singleton.1 hd
    · rw [heq] at hd
      obtain rfl := Descriptor.hash.inj (List.mem_singleton.1 hd)
      have hboot : footedStore.open? staleHash.partitionName = .ok footedData := rfl
      obtain rfl := Outcome.ok_unique hopen hboot
      decide
  have hfresh : ∀ bits pair, KeyPair.fresh [Rsa.smoothKey] bits = .ok pair →
      pair.Reliable .standard := by
    intro bits pair hpair
    rw [KeyPair.eq_smooth_of_fresh hpair]
    exact reliable_smooth
  -- No key is trusted, so all that has to be reliable is the one pair of the supply.
  obtain ⟨attempts, store', happly, hok⟩ := exists_applyAll_footedStore
  obtain ⟨found', hverify', hissues, hreferences⟩ := verify_of_rebuild
    (v := ⟨.standard, defaultChunkSize⟩)
    (fun name data hopen => hsize (name, data) (Store.mem_partitions_of_open hopen)) (by decide)
    (by decide) hself hnames (List.forall_mem_nil _) hfresh verify_footedStore
    rebuild_footedFound happly hok
  exact ⟨⟨verify_footedStore, rebuild_footedFound⟩, attempts, store', found', happly, hok, hverify',
    hissues, hreferences⟩

end Verifier

end VerifiedBoot
