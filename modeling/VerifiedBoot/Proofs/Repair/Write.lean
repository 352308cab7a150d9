import VerifiedBoot.Proofs.Repair.Fitness
import VerifiedBoot.Repair.Attempt

/-!
# The store after a repair

The requests of a repair name different partitions, so each is applied to the contents that were
verified. What is in the store afterwards are the repaired images. The partitions' own images are
still in front of them, as long as the partitions say.
-/

namespace VerifiedBoot

namespace Store

variable {suite : Suite} {alignment : Int} {store store' : Store}

/-- A request that was applied has its result in its partition. -/
theorem apply_eq_ok {request : Request} {attempt : Attempt}
    (h : store.apply suite alignment request = (attempt, store'))
    (hok : attempt.succeeded = true) : ∃ data w, store.open? request.partition = .ok data ∧
      request.applyInPlace suite data alignment = (.ok (), w) ∧
      store' = store.put request.partition w.file := by
  unfold apply at h
  split at h
  · obtain ⟨rfl, -⟩ := Prod.mk.inj h
    cases hok
  · next data hdata =>
    obtain ⟨rfl, rfl⟩ := Prod.mk.inj h
    obtain ⟨⟨⟩, w, hw⟩ := Outcome.exists_of_toBool hok
    refine ⟨data, w, hdata, hw, ?_⟩
    rw [hw]

/-- Requests for different partitions are all applied if each of them can be applied to the contents
that its partition has before the first one. -/
theorem succeeded_of_applyAll {requests : List Request}
    (hnodup : (requests.map (·.partition)).Nodup)
    (h : ∀ request ∈ requests, ∃ data w, store.open? request.partition = .ok data ∧
      request.applyInPlace suite data alignment = (.ok (), w)) :
    ∀ attempt ∈ (store.applyAll suite alignment requests).1, attempt.succeeded = true := by
  induction requests generalizing store with
  | nil => exact fun attempt hattempt => absurd hattempt List.not_mem_nil
  | cons request rest ih =>
    rw [List.map_cons, List.nodup_cons] at hnodup
    rw [List.forall_mem_cons] at h
    obtain ⟨⟨data, w, hdata, hw⟩, hrest⟩ := h
    have happly : store.apply suite alignment request =
        (⟨.ok (), w.request, some w.file⟩, store.put request.partition w.file) := by
      simp only [apply, hdata, hw]
    simp only [applyAll, happly, List.forall_mem_cons]
    refine ⟨rfl, ih hnodup.2 fun other hother => ?_⟩
    have hne : other.partition ≠ request.partition := by
      intro heq
      exact hnodup.1 (heq ▸ List.mem_map.2 ⟨other, hother, rfl⟩)
    rw [open_put_of_ne hne]
    exact hrest other hother

/-- Requests for different partitions that were all applied have their results in the partitions,
and other partitions are as they were. -/
theorem open_applyAll {requests : List Request} {attempts : List Attempt}
    (hnodup : (requests.map (·.partition)).Nodup)
    (h : store.applyAll suite alignment requests = (attempts, store'))
    (hok : ∀ attempt ∈ attempts, attempt.succeeded = true) :
    (∀ request ∈ requests, ∃ data w, store.open? request.partition = .ok data ∧
      request.applyInPlace suite data alignment = (.ok (), w) ∧
      store'.open? request.partition = .ok w.file) ∧
    ∀ name, name ∉ requests.map (·.partition) → store'.open? name = store.open? name := by
  induction requests generalizing store attempts with
  | nil =>
    obtain ⟨-, rfl⟩ := Prod.mk.inj h
    exact ⟨fun request hrequest => absurd hrequest List.not_mem_nil, fun _ _ => rfl⟩
  | cons request rest ih =>
    rw [List.map_cons, List.nodup_cons] at hnodup
    obtain ⟨attempt, store₁, happly⟩ : ∃ attempt store₁,
        store.apply suite alignment request = (attempt, store₁) := ⟨_, _, rfl⟩
    obtain ⟨attempts₁, store₂, hall⟩ : ∃ attempts₁ store₂,
        store₁.applyAll suite alignment rest = (attempts₁, store₂) := ⟨_, _, rfl⟩
    simp only [applyAll, happly, hall] at h
    obtain ⟨rfl, rfl⟩ := Prod.mk.inj h
    rw [List.forall_mem_cons] at hok
    obtain ⟨data, w, hdata, hw, rfl⟩ := apply_eq_ok happly hok.1
    obtain ⟨hwritten, hothers⟩ := ih hnodup.2 hall hok.2
    refine ⟨?_, fun name hname => ?_⟩
    · rw [List.forall_mem_cons]
      refine ⟨⟨data, w, hdata, hw, ?_⟩, fun other hother => ?_⟩
      · rw [hothers _ hnodup.1, open_put_self]
      · obtain ⟨data', w', hdata', hw', hopen⟩ := hwritten other hother
        -- The partition of a later request is still what it was in the beginning.
        have hne : other.partition ≠ request.partition := by
          intro heq
          exact hnodup.1 (heq ▸ List.mem_map.2 ⟨other, hother, rfl⟩)
        rw [open_put_of_ne hne] at hdata'
        exact ⟨data', w', hdata', hw', hopen⟩
    · rw [List.map_cons, List.mem_cons, not_or] at hname
      rw [hothers name hname.2, open_put_of_ne hname.1]

end Store

/-- How the contents of a partition may change in a repair. -/
inductive Rewritten (data : Bytes) : Bytes → Prop
  | same : Rewritten data data
  /-- A partition that is an image itself stays one, and may change all over. -/
  | bare {data' : Bytes} : data.take 4 = Header.signature → data'.take 4 = Header.signature →
    Rewritten data data'
  /-- A partition's own image stays, and so do its length and its footer, as far as this one
  counts. -/
  | footed {data' : Bytes} {footer : Footer} : Footed data footer → data'.length = data.length →
    data'.take footer.originalImageSize.toNat = data.take footer.originalImageSize.toNat →
    (∀ footer', Footed data' footer' → footer'.originalImageSize = footer.originalImageSize) →
    Rewritten data data'

/-- A request that is applied with the footer of its partition rewrites the partition, and its image
is read back from there. -/
theorem Request.readImage_of_probe {suite : Suite} {request : Request} {alignment : Int}
    {data : Bytes} {w : Written} {info : PartitionInfo}
    (hinfo : PartitionInfo.probe data = some info) (hfooter : request.footer = info.footer)
    (hsize : data.length < 1 <<< 63)
    (h : request.applyInPlace suite data alignment = (.ok (), w)) (hr : request.image.InRange)
    (halign : 1 ≤ alignment) :
    ∃ image, PartitionInfo.readImage suite w.file = .ok (some image) ∧ Rewritten data w.file ∧
      request.WrittenAs suite image := by
  rcases PartitionInfo.probe_cases hinfo with ⟨hmagic, hnone⟩ | ⟨footer, hsome, hfooted⟩
  · rw [hnone] at hfooter
    obtain ⟨image, hread, hmagic', hcontents⟩ := readImage_of_bare hfooter h hr halign
    exact ⟨image, hread, .bare hmagic hmagic', hcontents⟩
  · rw [hsome] at hfooter
    obtain ⟨image, hread, hlength, htake, hfound, hcontents⟩ :=
      readImage_of_footed hfooter hfooted hsize h hr halign
    exact ⟨image, hread, .footed hfooted hlength htake hfound, hcontents⟩

namespace Repair

variable {plan : Plan} {suite : Suite} {s : State} {name : String}

/-- A request is for the repaired image, and without a pair there is no key in it. -/
theorem State.request_eq_ok {pair : Option KeyPair} {request : Request}
    (h : s.request name pair = .ok request) : ∃ record, s.records.lookup name = some record ∧
      request = ⟨name, record.image, record.footer, pair⟩ ∧
      (pair = none → record.image.publicKey = none) := by
  obtain ⟨record, hrecord, h₁⟩ := Outcome.bind_eq_ok.1 h
  obtain ⟨hsigner, h₂⟩ := Outcome.guard_eq_ok.1 h₁
  obtain rfl := Except.ok.inj h₂
  refine ⟨record, State.record_eq_ok.1 hrecord, rfl, ?_⟩
  rintro rfl
  rw [Option.isNone_none, Bool.true_and, Option.isSome_iff_ne_none, not_not] at hsigner
  exact hsigner

/-- The requests of a repair: one for each changed partition, with its image. -/
theorem requests_eq_ok {requests : List Request} (hnodup : (s.changed.map (·.1)).Nodup)
    (h : s.changed.mapM (fun (name, pair) => s.request name pair) = .ok requests) :
    (requests.map (·.partition)).Nodup ∧
      (∀ name, name ∈ requests.map (·.partition) ↔ (s.changed.lookup name).isSome) ∧
      ∀ name pair, s.changed.lookup name = some pair →
        ∃ request ∈ requests, s.request name pair = .ok request := by
  have hnames : requests.map (·.partition) = s.changed.map (·.1) := by
    refine Outcome.map_eq_of_mapM h ?_
    rintro ⟨name, pair⟩ request hrequest
    obtain ⟨record, -, rfl, -⟩ := State.request_eq_ok hrequest
    rfl
  refine ⟨hnames ▸ hnodup, fun name => ?_, fun name pair hlookup => ?_⟩
  · rw [hnames, Entries.isSome_lookup_iff]
  · obtain ⟨before, after, hlist, -⟩ := List.lookup_eq_some_iff.1 hlookup
    have hmem : (name, pair) ∈ s.changed := by
      rw [hlist]
      exact List.mem_append_right _ List.mem_cons_self
    exact Outcome.exists_of_mapM h hmem

/-- Where the requests of a repair lead: the images have the descriptors of the repair, and if its
pairs are reliable, they embed the keys of the repair, and those that have to verify do. -/
structure WrittenBack (plan : Plan) (suite : Suite) (s : State) (store store' : Store) : Prop where
  rewritten : ∀ {name data}, store.open? name = .ok data →
    ∃ data', store'.open? name = .ok data' ∧ Rewritten data data'
  unchanged : ∀ {name}, s.changed.lookup name = none → store'.open? name = store.open? name
  image : ∀ {name record}, s.records.lookup name = some record →
    ∃ image, store'.image suite name = .ok (some image) ∧
      image.descriptors = record.image.descriptors ∧
      (ReliablePairs suite s → image.publicKey = record.image.publicKey ∧ (plan.trusted name →
        (record.image.publicKey.isSome ∨ ∃ p i, plan.chained p i name) →
          image.signatureValid = true))

end Repair

namespace Verifier

open Repair

variable {v : Verifier} {store store' : Store} {root : String} {found : Verification} {s : State}
  {alignment : Int} {requests : List Request} {attempts : List Attempt}

/-- Images are in range at the start of a repair. -/
theorem imagesInRange_ofVerification (h : v.verify store root = .ok found)
    (hsize : ∀ name data, store.open? name = .ok data → data.length < 1 <<< 63) :
    ImagesInRange (State.ofVerification found) := by
  intro name record hrecord
  rw [ofVerification_eq] at hrecord
  exact inRange_of_record h hsize hrecord

/-- No pair is settled or generated at the start of a repair. -/
theorem reliablePairs_ofVerification (found : Verification) :
    ReliablePairs v.suite (State.ofVerification found) where
  signer hpair := by
    rw [ofVerification_eq] at hpair
    cases hpair
  generated := by
    rw [ofVerification_eq]
    exact fun e he => absurd he List.not_mem_nil

/-- A changed partition has its request, which was applied to what was verified. -/
theorem readImage_of_changed (h : v.verify store root = .ok found)
    (hsize : ∀ name data, store.open? name = .ok data → data.length < 1 <<< 63)
    (hinv : Invariant (v.plan store root found) s) (hrange : ImagesInRange s)
    (hrequests : s.changed.mapM (fun (name, pair) => s.request name pair) = .ok requests)
    (happly : store.applyAll v.suite alignment requests = (attempts, store'))
    (hok : ∀ attempt ∈ attempts, attempt.succeeded = true) (halign : 1 ≤ alignment)
    {name : String} {pair : Option KeyPair} (hchanged : s.changed.lookup name = some pair) :
    ∃ record data data' image, s.records.lookup name = some record ∧
      store.open? name = .ok data ∧ store'.open? name = .ok data' ∧
      PartitionInfo.readImage v.suite data' = .ok (some image) ∧ Rewritten data data' ∧
      image.descriptors = record.image.descriptors ∧
      (ReliablePairs v.suite s → image.publicKey = record.image.publicKey ∧
        (pair.isSome → image.signatureValid = true)) := by
  obtain ⟨hnodup, -, hmember⟩ := requests_eq_ok hinv.nodup hrequests
  obtain ⟨request, hrequest, hrequested⟩ := hmember name pair hchanged
  obtain ⟨record, hrecord, rfl, hunsigned⟩ := State.request_eq_ok hrequested
  obtain ⟨data, w, hdata, hwritten, hopen⟩ :=
    (Store.open_applyAll hnodup happly hok).1 _ hrequest
  obtain ⟨first, hfirst, hfooter, -⟩ := hinv.record hrecord
  obtain ⟨data₀, info, hdata₀, hinfo, -, hfooter₀⟩ :=
    recordOf?_eq_some.1 ((lookup_records h).1 hfirst).2
  obtain rfl := Outcome.ok_unique hdata hdata₀
  obtain ⟨image, hread, hrewritten, hdescriptors, hsigned⟩ :=
    Request.readImage_of_probe hinfo (hfooter.trans hfooter₀) (hsize name data hdata) hwritten
      (hrange name record hrecord) halign
  refine ⟨record, data, w.file, image, hrecord, hdata, hopen, hread, hrewritten, hdescriptors, ?_⟩
  intro hreliable
  -- The pair in the request is the one that the invariant speaks of.
  have hsigner {p : KeyPair} (hp : pair = some p) : s.signer name = some p := by
    rw [State.signer, hchanged, hp]
    rfl
  obtain ⟨hkey, hvalid⟩ := hsigned fun p hp => hreliable.signer (hsigner hp)
  refine ⟨?_, hvalid⟩
  rw [hkey]
  cases hpair : pair with
  | none => exact (hunsigned hpair).symm
  | some p => exact ((hinv.signer (hsigner hpair)).2 record hrecord).symm

/-- The requests of a repair write it back, once no issue is left. -/
theorem writtenBack_of_applyAll (h : v.verify store root = .ok found)
    (hsize : ∀ name data, store.open? name = .ok data → data.length < 1 <<< 63)
    (hinv : Invariant (v.plan store root found) s) (hrange : ImagesInRange s)
    (hqueue : s.queue = [])
    (hrequests : s.changed.mapM (fun (name, pair) => s.request name pair) = .ok requests)
    (happly : store.applyAll v.suite alignment requests = (attempts, store'))
    (hok : ∀ attempt ∈ attempts, attempt.succeeded = true) (halign : 1 ≤ alignment) :
    WrittenBack (v.plan store root found) v.suite s store store' := by
  obtain ⟨hnodup, hnames, -⟩ := requests_eq_ok hinv.nodup hrequests
  have hsame {name : String} (hchanged : s.changed.lookup name = none) :
      store'.open? name = store.open? name := by
    refine (Store.open_applyAll hnodup happly hok).2 name fun hmem => ?_
    rw [hnames, hchanged] at hmem
    cases hmem
  refine ⟨?_, hsame, ?_⟩
  · intro name data hdata
    cases hchanged : s.changed.lookup name with
    | none => exact ⟨data, (hsame hchanged).trans hdata, .same⟩
    | some pair =>
      obtain ⟨record, data₀, data', image, -, hdata₀, hopen, -, hrewritten, -⟩ :=
        readImage_of_changed h hsize hinv hrange hrequests happly hok halign hchanged
      obtain rfl := Outcome.ok_unique hdata hdata₀
      exact ⟨data', hopen, hrewritten⟩
  · intro name record hrecord
    have hsignatures (htrusted : (v.plan store root found).trusted name)
        (hneeds : record.image.publicKey.isSome ∨
          ∃ p i, (v.plan store root found).chained p i name) :
        (s.signer name).isSome ∨
          (s.changed.lookup name = none ∧ record.image.signatureValid = true) := by
      refine (hinv.signatures htrusted hrecord hneeds).imp_right fun hor => ?_
      rw [hqueue] at hor
      exact hor.resolve_left List.not_mem_nil
    -- An image that was not changed verifies as it was, and one that was changed is signed.
    cases hchanged : s.changed.lookup name with
    | none =>
      obtain ⟨first, hfirst, -, -, -, hunchanged⟩ := hinv.record hrecord
      obtain rfl := hunchanged hchanged
      refine ⟨record.image, ?_, rfl, fun _ => ⟨rfl, fun htrusted hneeds => ?_⟩⟩
      · rw [Store.image, hsame hchanged]
        exact image_of_record h hfirst
      · rcases hsignatures htrusted hneeds with hsigner | ⟨-, hvalid⟩
        · rw [State.signer, hchanged] at hsigner
          cases hsigner
        · exact hvalid
    | some pair =>
      obtain ⟨record₀, data, data', image, hrecord₀, -, hopen, hread, -, hdescriptors, hsigned⟩ :=
        readImage_of_changed h hsize hinv hrange hrequests happly hok halign hchanged
      obtain rfl := Option.some.inj (hrecord.symm.trans hrecord₀)
      refine ⟨image, Store.image_eq_ok.2 ⟨data', hopen, hread⟩, hdescriptors, fun hreliable => ?_⟩
      obtain ⟨hkey, hvalid⟩ := hsigned hreliable
      refine ⟨hkey, fun htrusted hneeds => hvalid ?_⟩
      rcases hsignatures htrusted hneeds with hsigner | ⟨hnone, -⟩
      · rw [State.signer, hchanged] at hsigner
        exact hsigner
      · exact absurd (hchanged.symm.trans hnone) (by simp)

end Verifier

end VerifiedBoot
