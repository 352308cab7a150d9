import VerifiedBoot.Proofs.Image.Encodable
import VerifiedBoot.Proofs.KeyPair
import VerifiedBoot.Proofs.Repair.Bound
import VerifiedBoot.Proofs.Repair.Clean

/-!
# Requests can be signed with the pair that they name

The algorithm of an image, the key that it embeds and the pair that signs it are three things, and
the steps of a repair change them at different moments. `Repair.Paired` says how they agree all the
time: with a settled pair the three belong together, without one the image embeds no key or its
signature is an issue, and a key with a pair in the keyring is kept. When no issue waits any more,
every changed image suits its request, and writing it fails for reasons of its own only.
-/

namespace VerifiedBoot

/-- Whether an image is ready for a pair: it embeds its key, and its algorithm is for keys of its
size. -/
structure KeyPair.Suits (pair : KeyPair) (image : Image) : Prop where
  embedded : image.publicKey = some pair.publicKey
  algorithm : ∃ family size, image.algorithm = .ok (.signed family size) ∧ size.bits = pair.bits

namespace Request

variable {suite : Suite} {request : Request}

/-- The bytes of the blob, before they are filled up to an alignment. -/
def blobSize (request : Request) : Nat :=
  match request.signer, request.image.algorithm with
  | some _, .ok algorithm => request.image.signedSize algorithm
  | _, _ => request.image.unsignedSize

/-- Whether a request has a pair exactly if its image embeds a key, the image is ready for the pair,
and it is written unless a body is no whole words or there is no room for the blob. -/
structure Signable (suite : Suite) (request : Request) : Prop where
  unsigned : request.signer = none ↔ request.image.publicKey = none
  suits : ∀ pair, request.signer = some pair → pair.Suits request.image
  encode : ∀ alignment : Int, 1 ≤ alignment →
    ((∃ e, (request.encode suite alignment).1 = .error e) ↔ request.image.Unaligned ∨
      (min suite.room Bytes.maxSize : Nat) < Number.roundUp request.blobSize alignment)

/-- A request without a pair whose image embeds no key. -/
theorem signable_of_none (hsigner : request.signer = none)
    (hkey : request.image.publicKey = none) (hw : request.image.Writable) :
    request.Signable suite where
  unsigned := ⟨fun _ => hkey, fun _ => hsigner⟩
  suits pair hpair := by
    rw [hsigner] at hpair
    cases hpair
  encode alignment halign := by
    have hencode : (request.encode suite alignment).1 =
        (request.image.encodeUnsigned suite alignment).1 := by
      unfold encode
      rw [hsigner]
      rfl
    have hsize : request.blobSize = request.image.unsignedSize := by
      unfold blobSize
      rw [hsigner]
    rw [hencode, hsize, Outcome.exists_error_iff, Image.encodeUnsigned_isOk_iff hw halign,
      not_and_or, not_not, Int.not_le]

/-- A request with a consistent pair for which its image is ready. -/
theorem signable_of_some {pair : KeyPair} (hsuite : suite.Signs)
    (hsigner : request.signer = some pair) (hpair : pair.Consistent)
    (hsuits : pair.Suits request.image) (hw : request.image.Writable) :
    request.Signable suite where
  unsigned := by
    rw [hsigner, hsuits.embedded]
    exact ⟨nofun, nofun⟩
  suits other hother := by
    obtain rfl := Option.some.inj (hsigner.symm.trans hother)
    exact hsuits
  encode alignment halign := by
    obtain ⟨family, size, halgorithm, hbits⟩ := hsuits.algorithm
    have hsize : request.blobSize = request.image.signedSize (.signed family size) := by
      unfold blobSize
      rw [hsigner, halgorithm]
    rw [encode_of_signer hsigner, hsize, Outcome.exists_error_iff,
      Image.encodeSigned_isOk_iff halgorithm hpair.publicKey hbits.symm hw halign
        (hsuite hpair hbits.symm family), not_and_or, not_not, Int.not_le]

end Request

/-- Whether what an issue says fits the fields that it is written to. -/
def Issue.Fits : Issue → Prop
  | .hashMismatch _ _ size digest => FitsIn 63 size ∧ ShortLength digest
  | .publicKeyMismatch _ _ key => ∀ k, key = some k → k.InRange
  | .invalidPartitionData _ | .invalidSignature _ | .other _ _ => True

namespace Repair

variable {means : Means} {found : Verification} {s s' : State} {issue : Issue} {rest : List Issue}
  {name : String} {pair : KeyPair}

/-- Whether an image embedded, when it was verified, the key of a pair in the keyring. -/
def Trusted (means : Means) (found : Verification) (name : String) (pair : KeyPair) : Prop :=
  ∃ first, found.records.lookup name = some first ∧
    first.image.publicKey = some pair.publicKey ∧ means.keyring.find? pair.publicKey = some pair

/-- The invariant of the requests to be: how the images, the keys that they embed and the pairs that
are settled for them agree. -/
structure Paired (means : Means) (found : Verification) (s : State) : Prop where
  writable : ∀ {name record}, s.records.lookup name = some record → record.image.Writable
  fits : ∀ issue ∈ s.queue, issue.Fits
  generated : ∀ e ∈ s.generated, e.2.Consistent
  present : ∀ name, (s.changed.lookup name).isSome → (s.records.lookup name).isSome
  nodup : (s.changed.map (·.1)).Nodup
  settled : ∀ {name pair record}, s.signer name = some pair →
    s.records.lookup name = some record → pair.Consistent ∧ pair.Suits record.image
  /-- A changed image that embeds a key has a pair, or its signature is an issue. -/
  unsettled : ∀ {name record}, (s.changed.lookup name).isSome → s.signer name = none →
    s.records.lookup name = some record → record.image.publicKey.isSome →
    .invalidSignature name ∈ s.queue
  /-- A key with a pair in the keyring is kept, and no other pair is settled. -/
  kept : ∀ {name pair record}, Trusted means found name pair →
    s.records.lookup name = some record → record.image.publicKey = some pair.publicKey ∧
      ∀ other, s.signer name = some other → other = pair

namespace Paired

/-- What a step has to show of the one image that it edits. -/
structure Edit (means : Means) (found : Verification) (s s' : State) (name : String)
    (record : Record) (image : Image) (pair : Option KeyPair) : Prop where
  edited : State.Edited s s' name record image pair
  writable : image.Writable
  fits : ∀ issue ∈ s'.queue, issue.Fits
  generated : ∀ e ∈ s'.generated, e.2.Consistent
  /-- Issues about other signatures stay. -/
  stays : ∀ n, n ≠ name → .invalidSignature n ∈ s.queue → .invalidSignature n ∈ s'.queue
  settled : ∀ p, pair = some p → p.Consistent ∧ p.Suits image
  unsettled : pair = none → image.publicKey.isSome → .invalidSignature name ∈ s'.queue
  kept : ∀ p, Trusted means found name p → image.publicKey = some p.publicKey ∧
    ∀ other, pair = some other → other = p

/-- The other images and their pairs are as before, so the edited one is all there is to show. -/
theorem edit {record : Record} {image : Image} {pair : Option KeyPair} (hs : Paired means found s)
    (h : Edit means found s s' name record image pair) : Paired means found s' where
  writable {n r} hr := by
    rcases h.edited.lookup hr with ⟨rfl, rfl⟩ | ⟨-, hr⟩
    · exact h.writable
    · exact hs.writable hr
  fits := h.fits
  generated := h.generated
  present n hn := by
    by_cases hname : n = name
    · rw [hname, h.edited.after]
      rfl
    · rw [h.edited.changed, Entries.lookup_assign_of_ne hname] at hn
      rw [h.edited.others n hname]
      exact hs.present n hn
  nodup := by
    rw [h.edited.changed]
    exact Entries.nodup_keys_assign hs.nodup
  settled {n p r} hp hr := by
    rcases h.edited.lookup hr with ⟨rfl, rfl⟩ | ⟨hname, hr⟩
    · rw [h.edited.signer_self] at hp
      exact h.settled p hp
    · rw [h.edited.signer_of_ne hname] at hp
      exact hs.settled hp hr
  unsettled {n r} hn hnone hr hkey := by
    rcases h.edited.lookup hr with ⟨rfl, rfl⟩ | ⟨hname, hr⟩
    · rw [h.edited.signer_self] at hnone
      exact h.unsettled hnone hkey
    -- Another image that waits for its signature still does so behind the step.
    · rw [h.edited.changed, Entries.lookup_assign_of_ne hname] at hn
      rw [h.edited.signer_of_ne hname] at hnone
      exact h.stays n hname (hs.unsettled hn hnone hr hkey)
  kept {n p r} htrusted hr := by
    rcases h.edited.lookup hr with ⟨rfl, rfl⟩ | ⟨hname, hr⟩
    · rw [h.edited.signer_self]
      exact h.kept p htrusted
    · rw [h.edited.signer_of_ne hname]
      exact hs.kept htrusted hr

/-- A replaced descriptor that fits its fields leaves the image writable, and its signature becomes
an issue unless a pair is settled. -/
theorem replaced {record : Record} {i : Nat} {d : Descriptor} (hs : Paired means found s)
    (hqueue : s.queue = issue :: rest) (hkind : ∀ n, issue ≠ .invalidSignature n)
    (hedited : State.Edited s s' name record
      { record.image with descriptors := record.image.descriptors.set i d } (s.signer name))
    (hd : d.InRange) (hgenerated : s'.generated = s.generated)
    (hrequeue : s'.queue = ({ s with queue := rest } : State).requeue name record) :
    Paired means found s' := by
  have hold := hs.writable hedited.before
  have hmem {other : Issue} : other ∈ s'.queue ↔ other ∈ rest ∨
      (other = .invalidSignature name ∧ s.signer name = none ∧ record.image.publicKey.isSome) := by
    rw [hrequeue]
    exact State.mem_requeue
  have hdescriptors : ∀ x ∈ record.image.descriptors.set i d, x.InRange := by
    intro x hx
    rcases List.mem_or_eq_of_mem_set hx with hx | rfl
    · exact hold.descriptors x hx
    · exact hd
  exact hs.edit
    { edited := hedited
      writable := ⟨hold.header, hdescriptors⟩
      fits := by
        intro other hother
        rcases hmem.1 hother with hrest | ⟨rfl, -⟩
        · exact hs.fits other (Invariant.mem_of_rest hqueue hrest)
        · trivial
      generated := hgenerated ▸ hs.generated
      -- The issue that was mended is about no signature, so those that waited are all behind it.
      stays := by
        intro n _ hn
        rw [hqueue] at hn
        exact hmem.2 (.inl ((List.mem_cons.1 hn).resolve_left fun heq => hkind n heq.symm))
      settled := by
        intro p hp
        obtain ⟨hconsistent, hsuits⟩ := hs.settled hp hedited.before
        exact ⟨hconsistent, hsuits.embedded, hsuits.algorithm⟩
      unsettled := fun hnone hkey => hmem.2 (.inr ⟨rfl, hnone, hkey⟩)
      kept := fun p hp => hs.kept hp hedited.before }

/-- An image that is signed with a consistent pair is ready for it, if no other one was trusted. -/
theorem signed {record : Record} {header : Header} (hs : Paired means found s)
    (hqueue : s.queue = .invalidSignature name :: rest)
    (hedited : State.Edited s s' name record
      { record.image with header, publicKey := some pair.publicKey } (some pair))
    (hresized : Header.Resized record.image.header pair.bits header)
    (hconsistent : ∀ e ∈ s'.generated, e.2.Consistent) (hpair : pair.Consistent)
    (hfits : ∀ issue ∈ s'.queue, issue.Fits) (hstays : ∀ issue ∈ rest, issue ∈ s'.queue)
    (htrusted : ∀ p, Trusted means found name p → pair = p) : Paired means found s' := by
  have hold := hs.writable hedited.before
  have hbits : 0 < pair.bits := pair.publicKey.bits_pos
  exact hs.edit
    { edited := hedited
      writable := ⟨hresized.inRange hold.header, hold.descriptors⟩
      fits := hfits
      generated := hconsistent
      stays := by
        intro n hname hn
        rw [hqueue] at hn
        refine hstays _ ((List.mem_cons.1 hn).resolve_left fun heq => hname ?_)
        exact Issue.invalidSignature.inj heq
      settled := by
        intro p hp
        obtain rfl := Option.some.inj hp
        exact ⟨hpair, rfl, hresized.exists_algorithm hbits⟩
      unsettled := nofun
      kept := by
        intro p hp
        obtain rfl := htrusted p hp
        exact ⟨rfl, fun other hother => (Option.some.inj hother).symm⟩ }

/-- The pair of a trusted key is at hand for the image, since it has kept the key. -/
theorem findPair_of_trusted (hs : Paired means found s) {record : Record}
    (hrecord : s.records.lookup name = some record) (h : Trusted means found name pair) :
    s.findPair means record.image.publicKey = some pair := by
  have hkey := (hs.kept h hrecord).1
  obtain ⟨-, -, -, hring⟩ := h
  rw [hkey]
  unfold State.findPair
  simp only [hring]
  rfl

/-- **The step lemma.** -/
theorem handle (hs : Paired means found s) (hring : ∀ pair ∈ means.keyring, pair.Consistent)
    (hfresh : ∀ bits pair, means.generate bits = .ok pair → pair.Consistent)
    (hqueue : s.queue = issue :: rest)
    (h : ({ s with queue := rest } : State).handle means issue = .ok s') :
    Paired means found s' := by
  have hfirst := hs.fits issue (Invariant.mem_of_first hqueue)
  cases handled_of_handle h with
  | hash _ hd hedited hgenerated hrequeue =>
    have hold := (hs.writable hedited.before).descriptors _ (List.mem_of_getElem? hd)
    exact hs.replaced hqueue nofun hedited.unpop
      { hold with imageSize := hfirst.1, digest := hfirst.2 } hgenerated hrequeue
  | chain _ hd hedited hgenerated hrequeue =>
    have hold := (hs.writable hedited.before).descriptors _ (List.mem_of_getElem? hd)
    exact hs.replaced hqueue nofun hedited.unpop { hold with publicKey := hfirst } hgenerated
      hrequeue
  | @sign name record header pair hfind hedited hadjusted hgenerated hwaiting =>
    obtain ⟨hkey, hsource⟩ := State.findPair_eq_some hfind
    have hconsistent : pair.Consistent := hsource.elim (hring pair) (hs.generated _)
    have hsame : ({ record.image with header } : Image) =
        { record.image with header, publicKey := some pair.publicKey } := by
      rw [← hkey]
    rw [hsame] at hedited
    refine hs.signed hqueue hedited.unpop hadjusted.resized (hgenerated ▸ hs.generated) hconsistent
      (fun other hother => ?_) (fun other hother => ?_) fun p hp => ?_
    · rw [hwaiting] at hother
      exact hs.fits other (Invariant.mem_of_rest hqueue hother)
    · rw [hwaiting]
      exact hother
    · exact Option.some.inj (hfind.symm.trans (hs.findPair_of_trusted hedited.before hp))
  | @rekey name record header pair refs hnone _ _ hedited hadjusted hmade hgenerated hwaiting =>
    have hresized := hadjusted.resized
    have hconsistent : ∀ e ∈ s'.generated, e.2.Consistent := fun e he =>
      (hgenerated e he).elim (hs.generated e) (hfresh e.1 e.2)
    obtain ⟨_, _, -, hmem⟩ := hmade
    have hrange : pair.publicKey.InRange := by
      obtain ⟨algorithm, hbits, -⟩ := hresized
      exact State.inRange_of_bits hbits
    refine hs.signed hqueue hedited.unpop hresized hconsistent (hconsistent _ hmem)
      (fun other hother => ?_) (fun other hother => ?_) fun p hp => ?_
    · rw [hwaiting, Findings.mem_foldl_noteIn] at hother
      rcases hother with hother | hstale
      · exact hs.fits other (Invariant.mem_of_rest hqueue hother)
      · obtain ⟨r, -, rfl⟩ := List.mem_map.1 hstale
        intro k hk
        rw [← Option.some.inj hk]
        exact hrange
    · rw [hwaiting, Findings.mem_foldl_noteIn]
      exact .inl hother
    · -- With a pair in the keyring there would be no new key.
      cases hnone.symm.trans (hs.findPair_of_trusted hedited.before hp)

/-- **The run lemma.** When the queue was worked off nothing waits, and all images are ready. -/
theorem drain {limit : Nat} (hs : Paired means found s)
    (hring : ∀ pair ∈ means.keyring, pair.Consistent)
    (hfresh : ∀ bits pair, means.generate bits = .ok pair → pair.Consistent)
    (h : s.drain means limit = .ok s') : Paired means found s' ∧ s'.queue = [] :=
  State.drain_preserves (fun hs hqueue hhandle => hs.handle hring hfresh hqueue hhandle) hs h

/-- Where no issue waits, every changed image without a pair embeds no key, so it is requested. -/
theorem exists_requests (hs : Paired means found s) (hqueue : s.queue = []) :
    ∃ requests, s.changed.mapM (fun entry => s.request entry.1 entry.2) = .ok requests := by
  refine Outcome.exists_mapM fun entry hmem => ?_
  have hlookup := Entries.lookup_of_mem hs.nodup hmem
  have hchanged : (s.changed.lookup entry.1).isSome := by
    rw [hlookup]
    rfl
  obtain ⟨record, hrecord⟩ := Option.isSome_iff_exists.1 (hs.present entry.1 hchanged)
  refine State.exists_request hrecord fun hnone => ?_
  have hsigner : s.signer entry.1 = none := by
    rw [State.signer, hlookup, hnone]
    rfl
  rw [← Option.not_isSome_iff_eq_none]
  intro hkey
  have hwaits := hs.unsettled hchanged hsigner hrecord hkey
  rw [hqueue] at hwaits
  exact List.not_mem_nil hwaits

/-- The request for a changed image is signable, with the pair of its key if there was one in the
keyring. -/
theorem signable_of_request {suite : Suite} {signer : Option KeyPair} {request : Request}
    (hs : Paired means found s) (hsuite : suite.Signs) (hmem : (name, signer) ∈ s.changed)
    (h : s.request name signer = .ok request) :
    request.Signable suite ∧
      ∀ pair, Trusted means found request.partition pair →
        request.signer = some pair ∧ request.image.publicKey = some pair.publicKey := by
  obtain ⟨record, hrecord, rfl, hnone⟩ := State.request_eq_ok h
  have hsigner : s.signer name = signer := by
    rw [State.signer, Entries.lookup_of_mem hs.nodup hmem]
    rfl
  have hwritable := hs.writable hrecord
  cases signer with
  | none =>
    have hkey := hnone rfl
    refine ⟨Request.signable_of_none rfl hkey hwritable, fun pair htrusted => ?_⟩
    cases hkey.symm.trans (hs.kept htrusted hrecord).1
  | some settled =>
    obtain ⟨hconsistent, hsuits⟩ := hs.settled hsigner hrecord
    refine ⟨Request.signable_of_some hsuite rfl hconsistent hsuits hwritable,
      fun pair htrusted => ?_⟩
    obtain ⟨hkey, hother⟩ := hs.kept htrusted hrecord
    exact ⟨congrArg some (hother settled hsigner), hkey⟩

end Paired

/-- No repair fails on its way because an image is without a pair. -/
theorem drain_ne_noSigningKey
    (hgenerate : ∀ bits cause, means.generate bits ≠ .error (.unrepairable cause)) (s : State)
    (limit : Nat) (name : String) :
    s.drain means limit ≠ .error (.unrepairable (.noSigningKey name)) := by
  intro hdrain
  obtain ⟨handled, s', -, hended⟩ := @Run.exists_ended_of_start means s limit
  rw [hdrain] at hended
  cases hended with
  | failed _ hhandle => exact (State.handle_stepwise hgenerate _ _).2 name hhandle

end Repair

namespace Verifier

open Repair

variable {v : Verifier} {store : Store} {root : String} {found : Verification}

/-- The images that were read are writable. -/
theorem writable_of_record (h : v.verify store root = .ok found)
    (hsize : ∀ name data, store.open? name = .ok data → data.length < 1 <<< 48) {name : String}
    {record : Record} (hrecord : found.records.lookup name = some record) :
    record.image.Writable := by
  obtain ⟨data, info, hdata, -, hparse, -⟩ := recordOf?_eq_some.1 ((lookup_records h).1 hrecord).2
  have hlength := hsize name data hdata
  refine Image.writable_of_parse hparse ?_
  rw [List.length_drop]
  omega

/-- What was measured and the keys that were found fit their fields. -/
theorem fits_of_issue (h : v.verify store root = .ok found)
    (hsize : ∀ name data, store.open? name = .ok data → data.length < 1 <<< 48) {issue : Issue}
    (hissue : issue ∈ found.issues) : issue.Fits := by
  cases issue with
  | hashMismatch p index size digest =>
    obtain ⟨i, m, rfl, rfl, rfl, first, d, hfirst, hd, hm, -⟩ := measured_of_mismatch h hissue
    have hold := (writable_of_record h hsize hfirst).descriptors _ (List.mem_of_getElem? hd)
    exact hm.inRange hold fun name data hopen => Nat.lt_trans (hsize name data hopen) (by decide)
  | publicKeyMismatch p index key =>
    obtain ⟨i, t, target, k, -, -, himage, hkey, rfl⟩ := chained_of_mismatch h hissue
    intro k' hk'
    obtain rfl := Option.some.inj hk'
    exact inRange_of_image himage hkey
  | invalidPartitionData _ | invalidSignature _ | other _ _ => trivial

/-- The invariant holds at the start of a repair. -/
theorem paired_ofVerification (h : v.verify store root = .ok found)
    (hsize : ∀ name data, store.open? name = .ok data → data.length < 1 <<< 48) (means : Means) :
    Paired means found (State.ofVerification found) where
  writable {name record} hrecord := by
    rw [ofVerification_eq] at hrecord
    exact writable_of_record h hsize hrecord
  fits issue hissue := fits_of_issue h hsize (mem_queue_ofVerification.1 hissue)
  generated := by
    rw [ofVerification_eq]
    exact fun e he => absurd he List.not_mem_nil
  present name hname := by
    rw [ofVerification_eq] at hname
    cases hname
  nodup := by
    rw [ofVerification_eq]
    exact List.nodup_nil
  settled {name pair record} hpair := by
    rw [ofVerification_eq] at hpair
    cases hpair
  unsettled {name record} hname := by
    rw [ofVerification_eq] at hname
    cases hname
  kept {name pair record} htrusted hrecord := by
    obtain ⟨first, hfirst, hkey, -⟩ := htrusted
    rw [ofVerification_eq] at hrecord ⊢
    obtain rfl := Option.some.inj (hfirst.symm.trans hrecord)
    exact ⟨hkey, nofun⟩

/-- **Requests can be signed with the pair that they name**, and a key with a pair in the keyring is
kept. No repair ends with a changed image that is without a pair. -/
theorem signable_of_rebuild {means : Means} (hsuite : v.suite.Signs)
    (h : v.verify store root = .ok found)
    (hsize : ∀ name data, store.open? name = .ok data → data.length < 1 <<< 48)
    (hring : ∀ pair ∈ means.keyring, pair.Consistent)
    (hfresh : ∀ bits pair, means.generate bits = .ok pair → pair.Consistent)
    (hgenerate : ∀ bits cause, means.generate bits ≠ .error (.unrepairable cause)) :
    (∀ limit requests, rebuild means found limit = .ok requests → ∀ request ∈ requests,
      request.Signable v.suite ∧
      ∀ pair, Trusted means found request.partition pair →
        request.signer = some pair ∧ request.image.publicKey = some pair.publicKey) ∧
    ∀ limit name, rebuild means found limit ≠ .error (.unrepairable (.noSigningKey name)) := by
  have hstart := paired_ofVerification h hsize means
  refine ⟨fun limit requests hrebuild request hrequest => ?_, fun limit name hrebuild => ?_⟩
  · obtain ⟨s, hdrain, hrequests⟩ := Outcome.bind_eq_ok.1 hrebuild
    obtain ⟨hs, -⟩ := hstart.drain hring hfresh hdrain
    obtain ⟨⟨name, signer⟩, hmem, hrequested⟩ := (Outcome.mem_mapM hrequests).1 hrequest
    exact hs.signable_of_request hsuite hmem hrequested
  -- Only making the requests can ask for a key in vain, and behind an empty queue it does not.
  · rcases Outcome.bind_eq_error.1 hrebuild with hdrain | ⟨s, hdrain, hrequests⟩
    · exact drain_ne_noSigningKey hgenerate _ _ name hdrain
    · obtain ⟨hs, hqueue⟩ := hstart.drain hring hfresh hdrain
      obtain ⟨requests, hok⟩ := hs.exists_requests hqueue
      cases hok.symm.trans hrequests

/-- A pair of two primes is generated for the chained image, and both requests can be written. -/
theorem signable_of_rebuild_chainStore :
    (Suite.standard.Signs ∧
      verify ⟨.standard, defaultChunkSize⟩ chainStore "vbmeta" = .ok chainFound ∧
      Rsa.smoothKey.Consistent) ∧
    ∃ requests, rebuild ⟨[], KeyPair.fresh [Rsa.smoothKey]⟩ chainFound defaultLimit =
        .ok requests ∧
      requests.map (fun r => (r.partition, r.signer.isSome)) =
        [("boot", true), ("vbmeta", false)] ∧
      ∀ request ∈ requests, request.Signable .standard := by
  have hsize : ∀ e ∈ chainStore.partitions, e.2.length < 1 <<< 48 := by decide +kernel
  have hsigned : (rebuild ⟨[], KeyPair.fresh [Rsa.smoothKey]⟩ chainFound defaultLimit).toOption.map
      (·.map fun r => (r.partition, r.signer.isSome)) =
        some [("boot", true), ("vbmeta", false)] := by decide +kernel
  have hsuite : Suite.standard.Signs := Suite.signs_ofDigests
  refine ⟨⟨hsuite, verify_chainStore, Rsa.consistent_smoothKey⟩, ?_⟩
  cases hrebuild : rebuild ⟨[], KeyPair.fresh [Rsa.smoothKey]⟩ chainFound defaultLimit with
  | error e =>
    rw [hrebuild] at hsigned
    cases hsigned
  | ok requests =>
    rw [hrebuild] at hsigned
    refine ⟨requests, rfl, Option.some.inj hsigned, fun request hrequest => ?_⟩
    refine ((signable_of_rebuild hsuite verify_chainStore ?_ ?_ ?_ ?_).1 defaultLimit requests
      hrebuild request hrequest).1
    · exact fun name data hopen => hsize (name, data) (Store.mem_partitions_of_open hopen)
    · exact fun pair hpair => absurd hpair List.not_mem_nil
    · exact fun bits pair => @KeyPair.Consistent.of_fresh pair [Rsa.smoothKey] bits
        (List.forall_mem_singleton.2 Rsa.consistent_smoothKey)
    · exact KeyPair.fresh_ne_unrepairable [Rsa.smoothKey]

/-- All bodies may be whole words, and there is yet no room for a blob that is filled up to an
alignment that no byte string is as long as. -/
theorem encode_chainRequest_of_long :
    (verify ⟨.standard, defaultChunkSize⟩ footedStore "vbmeta" = .ok footedFound ∧
      rebuild ⟨[], KeyPair.fresh [Rsa.smoothKey]⟩ footedFound defaultLimit =
        .ok [bootRequest, chainRequest]) ∧
    ¬chainRequest.image.Unaligned ∧
      (chainRequest.encode .standard (1 <<< 63 : Nat)).1 = .error .sizeTooLarge := by
  refine ⟨⟨verify_footedStore, rebuild_footedFound⟩, ?_, by decide +kernel⟩
  rintro ⟨d, hd, hunaligned⟩
  obtain rfl := List.mem_singleton.1 hd
  exact hunaligned

end Verifier

end VerifiedBoot
