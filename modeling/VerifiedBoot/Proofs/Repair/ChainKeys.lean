import VerifiedBoot.Proofs.Repair.Extent

/-!
# The keys of chain descriptors after a repair

When an image gets a new key, the chain descriptors of other partitions that name it follow,
however many there are and in whatever order the issues about them are handled. A chain descriptor
of its own partition does not: it keeps the key that the image embedded before.
-/

namespace VerifiedBoot

namespace Repair

variable {plan : Plan} {s : State} {name : String} {record : Record}

/-- The image that a partition has after a repair: the one of its request, or, if there is none, the
one that was recorded. -/
def finalImage (found : Verification) (requests : List Request) (name : String) : Option Image :=
  match requests.find? (·.partition = name) with
  | some request => some request.image
  | none => (found.records.lookup name).map (·.image)

/-- The requests for a partition are for its image as the repair left it. -/
theorem image_of_find? {requests : List Request} {request : Request}
    (hrequests : s.changed.mapM (fun (name, pair) => s.request name pair) = .ok requests)
    (hfind : requests.find? (·.partition = name) = some request)
    (hrecord : s.records.lookup name = some record) : request.image = record.image := by
  have hname : request.partition = name := by simpa using List.find?_some hfind
  obtain ⟨⟨other, pair⟩, -, hrequest⟩ :=
    (Outcome.mem_mapM hrequests).1 (List.mem_of_find?_eq_some hfind)
  obtain ⟨found, hfound, rfl, -⟩ := State.request_eq_ok hrequest
  obtain rfl : other = name := hname
  obtain rfl := Option.some.inj (hfound.symm.trans hrecord)
  rfl

/-- The final image of a partition is the one that the repair left. -/
theorem Kept.finalImage_eq {found : Verification} {requests : List Request} (hs : Kept plan s)
    (horiginal : plan.original name = found.records.lookup name)
    (hrequests : s.changed.mapM (fun (name, pair) => s.request name pair) = .ok requests)
    (hrecord : s.records.lookup name = some record) :
    finalImage found requests name = some record.image := by
  unfold finalImage
  cases hfind : requests.find? (·.partition = name) with
  | some request => exact congrArg some (image_of_find? hrequests hfind hrecord)
  | none =>
    -- A partition without a request was not changed.
    have hunchanged : s.changed.lookup name = none := by
      by_contra hchanged
      have hname := ((requests_eq_ok hs.nodup hrequests).2.1 name).2
        (Option.isSome_iff_ne_none.2 hchanged)
      obtain ⟨request, hrequest, hname⟩ := List.mem_map.1 hname
      have hother := List.find?_eq_none.1 hfind request hrequest
      simp [hname] at hother
    obtain ⟨first, hfirst, -, -, -, hsame⟩ := hs.record hrecord
    simp only
    rw [← horiginal, hfirst, hsame hunchanged]
    rfl

/-- Once the queue is empty, an image that a chain descriptor names embeds a key. -/
theorem Invariant.isSome_publicKey (hi : Invariant plan s) (hsound : plan.Sound)
    (hqueue : s.queue = []) {p : String} {i : Nat} (htrusted : plan.trusted name)
    (hchained : plan.chained p i name) (hrecord : s.records.lookup name = some record) :
    record.image.publicKey.isSome := by
  rcases hi.signatures htrusted hrecord (.inr ⟨p, i, hchained⟩) with hpair | hwaits |
    ⟨hunchanged, hvalid⟩
  · obtain ⟨pair, hpair⟩ := Option.isSome_iff_exists.1 hpair
    rw [(hi.signer hpair).2 record hrecord]
    rfl
  · rw [hqueue] at hwaits
    exact absurd hwaits List.not_mem_nil
  · obtain ⟨first, hfirst, -, -, -, hsame⟩ := hi.record hrecord
    rw [hsame hunchanged] at hvalid ⊢
    exact hsound.embedded hfirst hvalid

end Repair

namespace Verifier

open Repair

variable {v : Verifier} {store : Store} {root : String} {found : Verification}

/-- What a chain descriptor names has to verify. -/
theorem trusted_of_chained {p t : String} {i : Nat}
    (h : (v.plan store root found).chained p i t) : (v.plan store root found).trusted t := by
  obtain ⟨image, d, hreach, himage, hd, rfl⟩ := h
  exact hreach.chain himage (List.mem_of_getElem? hd)

/-- **Chain descriptors follow a new key.** After a repair, the chain descriptor that a reference
stands for has the key of the image that it names, unless it is a descriptor of its own partition
and the image got a new key. A descriptor of its own partition has the key that the image embedded
before the repair, or the key that it had itself if the image embedded none. -/
theorem chainKey_of_rebuild {means : Means} {limit : Int} {requests : List Request}
    (hverify : v.verify store root = .ok found)
    (hrebuild : rebuild means found limit = .ok requests) {r : Reference}
    (hr : r ∈ found.references) {holder target : Record} {d : ChainDescriptor}
    (hholder : found.records.lookup r.holder = some holder)
    (hd : holder.image.descriptorAt r.index = .ok (.chain d))
    (htarget : found.records.lookup r.partition = some target) :
    ∃ holder' d' target', finalImage found requests r.holder = some holder' ∧
      holder'.descriptorAt r.index = .ok (.chain d') ∧
      finalImage found requests r.partition = some target' ∧ target'.publicKey.isSome ∧
      (r.holder ≠ r.partition ∨ target'.publicKey = target.image.publicKey →
        d'.publicKey = target'.publicKey) ∧
      (r.holder = r.partition → d'.publicKey = ownKey target d) := by
  obtain ⟨s, hdrain, hrequests⟩ := Outcome.bind_eq_ok.1 hrebuild
  have hsound := plan_sound hverify
  obtain ⟨hi, hqueue⟩ :=
    (invariant_ofVerification hverify (valid_of_drain hdrain)).drain hsound hdrain
  -- The reference is one to a descriptor that the plan speaks of.
  obtain ⟨i, hindex, hnamed⟩ := hsound.chained hr
  rw [hindex, Image.descriptorAt_natCast] at hd
  have hchained := hnamed holder d hholder hd
  -- Both images are still there, and so is the descriptor.
  obtain ⟨record, hrecord⟩ := hi.present hholder
  obtain ⟨record', hrecord'⟩ := hi.present htarget
  obtain ⟨first, hfirst, -, -, hframe, -⟩ := hi.record hrecord
  obtain rfl := Option.some.inj (hholder.symm.trans hfirst)
  obtain ⟨d', hd', -⟩ := Image.SameFrame.chain (Eq.symm hframe) hd
  have hsome := hi.isSome_publicKey hsound hqueue (trusted_of_chained hchained) hchained hrecord'
  have hother (hne : r.holder ≠ r.partition) : d'.publicKey = record'.image.publicKey := by
    rcases hi.keys hchained hne hrecord hd' hrecord' with hdue | hnone
    · rw [hqueue] at hdue
      exact hdue
    · rw [hnone] at hsome
      cases hsome
  have hown (heq : r.holder = r.partition) : d'.publicKey = ownKey target d := by
    rw [← heq] at hchained htarget
    obtain ⟨first, c, hfirst, hc, hdue⟩ := hi.ownKeys hchained hrecord hd'
    obtain rfl := Option.some.inj (hholder.symm.trans hfirst)
    obtain rfl := Option.some.inj (htarget.symm.trans hfirst)
    obtain rfl := Descriptor.chain.inj (Option.some.inj (hd.symm.trans hc))
    rw [hqueue] at hdue
    exact hdue
  refine ⟨record.image, d', record'.image, hi.finalImage_eq rfl hrequests hrecord, ?_,
    hi.finalImage_eq rfl hrequests hrecord', hsome, ?_, hown⟩
  · rw [hindex, Image.descriptorAt_natCast]
    exact hd'
  · intro hor
    by_cases hne : r.holder = r.partition
    · -- The image has the key that it had before, which its own descriptors have as well.
      have hsame := hor.resolve_left (not_not.2 hne)
      rw [hown hne, ownKey, ← hsame]
      exact Option.or_of_isSome hsome
    · exact hother hne

/-- A store with two images that both chain the second one. -/
def loopStore : Store :=
  .ofList [
    ("vbmeta", (chainImage.encodeUnsigned .standard 64).1.toOption.getD []),
    ("boot", (chainImage.encodeUnsigned .standard 64).1.toOption.getD [])]

/-- What is found in the store: the second image is not signed. -/
def loopFound : Verification where
  root := "vbmeta"
  records := [
    ("vbmeta", ⟨Image.unsignedImage chainImage 96, none⟩),
    ("boot", ⟨Image.unsignedImage chainImage 96, none⟩)]
  issues := [.invalidSignature "boot"]
  references := [⟨"boot", "vbmeta", 0⟩, ⟨"boot", "boot", 0⟩]

/-- The verification of the store finds the one issue. -/
theorem verify_loopStore :
    verify ⟨.standard, defaultChunkSize⟩ loopStore "vbmeta" = .ok loopFound := by
  obtain ⟨blob, -, ⟨hblob, hparse⟩, -⟩ := parse_chainStore
  obtain rfl : (chainImage.encodeUnsigned .standard 64).1.toOption.getD [] = blob := by
    simpa [chainStore, Store.ofList, Store.open?] using hblob
  have hopen : loopStore.open? "vbmeta" =
      .ok ((chainImage.encodeUnsigned .standard 64).1.toOption.getD []) := by
    simp [loopStore, Store.ofList, Store.open?]
  have hopen' : loopStore.open? "boot" =
      .ok ((chainImage.encodeUnsigned .standard 64).1.toOption.getD []) := by
    simp [loopStore, Store.ofList, Store.open?, Entries.lookup_cons]
  have himage' := Store.image_of_parse hopen' hparse
  have hrecord := @recordOf?_of_parse ⟨.standard, defaultChunkSize⟩ _ _ _ _ hopen hparse
  have hrecord' := @recordOf?_of_parse ⟨.standard, defaultChunkSize⟩ _ _ _ _ hopen' hparse
  have hcheck : checkChainDescriptor ⟨.standard, defaultChunkSize⟩ loopStore
      ⟨"vbmeta", 0, .chain bareChain⟩ bareChain ⟨["vbmeta"], [], []⟩ =
        .ok (true, ⟨["vbmeta", "boot"], loopFound.issues, [⟨"boot", "vbmeta", 0⟩]⟩) :=
    Outcome.bind_eq_ok.2 ⟨_, himage', rfl⟩
  have henter : enter ⟨.standard, defaultChunkSize⟩ loopStore "boot"
      ⟨["vbmeta", "boot"], loopFound.issues, [⟨"boot", "vbmeta", 0⟩]⟩ =
        .ok ([⟨"boot", 0, .chain bareChain⟩],
          ⟨["vbmeta", "boot"], loopFound.issues, [⟨"boot", "vbmeta", 0⟩]⟩) :=
    Outcome.bind_eq_ok.2 ⟨_, himage', rfl⟩
  -- The second image was entered already when its own descriptor leads to it again.
  have hcheck' : checkChainDescriptor ⟨.standard, defaultChunkSize⟩ loopStore
      ⟨"boot", 0, .chain bareChain⟩ bareChain
        ⟨["vbmeta", "boot"], loopFound.issues, [⟨"boot", "vbmeta", 0⟩]⟩ =
        .ok (true, ⟨["vbmeta", "boot"], loopFound.issues, loopFound.references⟩) :=
    Outcome.bind_eq_ok.2 ⟨_, himage', rfl⟩
  refine Outcome.bind_eq_ok.2 ⟨([⟨"vbmeta", 0, .chain bareChain⟩], ⟨["vbmeta"], [], []⟩),
    Outcome.bind_eq_ok.2 ⟨_, Store.image_of_parse hopen hparse, rfl⟩, Outcome.bind_eq_ok.2
      ⟨⟨["vbmeta", "boot"], loopFound.issues, loopFound.references⟩, ?_, ?_⟩⟩
  · have hleft : bareChain.partitionName ∈ without loopStore.names "vbmeta" := by decide
    have hentered : bareChain.partitionName ∉
        without (without loopStore.names "vbmeta") "boot" := by decide
    rw [walk_of_chain rfl hcheck hleft henter]
    exact (walk_of_chain_entered rfl hcheck' hentered).trans walk_nil
  · rw [records_cons hrecord, records_cons hrecord']
    rfl

/-- The second image gets a new key. The chain descriptor of the first image has it afterwards, and
the one of the second image has none, as before. -/
theorem chainKey_of_rebuild_loopStore :
    verify ⟨.standard, defaultChunkSize⟩ loopStore "vbmeta" = .ok loopFound ∧
    ∃ requests, rebuild ⟨[], KeyPair.fresh freshKeys⟩ loopFound defaultLimit = .ok requests ∧
      ∃ first d boot d', finalImage loopFound requests "vbmeta" = some first ∧
        first.descriptorAt 0 = .ok (.chain d) ∧
        finalImage loopFound requests "boot" = some boot ∧
        boot.descriptorAt 0 = .ok (.chain d') ∧
        boot.publicKey.isSome ∧ d.publicKey = boot.publicKey ∧ d'.publicKey = none := by
  have hbool : (rebuild ⟨[], KeyPair.fresh freshKeys⟩ loopFound defaultLimit).toBool = true := by
    decide +kernel
  refine ⟨verify_loopStore, ?_⟩
  cases hrebuild : rebuild ⟨[], KeyPair.fresh freshKeys⟩ loopFound defaultLimit with
  | error e =>
    rw [hrebuild] at hbool
    cases hbool
  | ok requests =>
    obtain ⟨first, d, boot, hvbmeta, hd, hboot, hsome, hsame, -⟩ :=
      @chainKey_of_rebuild _ _ _ _ _ _ _ verify_loopStore hrebuild ⟨"boot", "vbmeta", 0⟩
        List.mem_cons_self _ _ bareChain rfl rfl rfl
    -- The second reference is the one from the image to its own partition.
    obtain ⟨boot', d', -, hboot', hd', -, -, -, hown⟩ :=
      @chainKey_of_rebuild _ _ _ _ _ _ _ verify_loopStore hrebuild ⟨"boot", "boot", 0⟩
        (List.mem_cons_of_mem _ List.mem_cons_self) _ _ bareChain rfl rfl rfl
    obtain rfl := Option.some.inj (hboot.symm.trans hboot')
    exact ⟨requests, rfl, first, d, boot, d', hvbmeta, hd, hboot, hd', hsome,
      hsame (.inl (by decide)), hown rfl⟩

end Verifier

end VerifiedBoot
