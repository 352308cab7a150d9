import VerifiedBoot.Proofs.Repair.Totality

/-!
# Steps of a repair under way

Every issue that waits can be mended, but for one reason: an image has to get a new key, and no
other partition has a chain descriptor of it. Mending an issue is a step of a repair under way, so
`Repair.Underway` holds until the queue is empty or the repair fails.
-/

namespace VerifiedBoot

namespace Repair

variable {means : Means} {found : Verification} {s s' : State} {issue : Issue} {rest : List Issue}
  {name : String} {record : Record} {i : Nat} {d d' : Descriptor}

/-- To replace a descriptor by one with its frame is a step. -/
theorem Underway.step_of_replaced (hi : Underway means found s)
    (hqueue : s.queue = issue :: rest) (hpartition : issue.partition? = some name)
    (hkind : ∀ n, issue ≠ .invalidSignature n)
    (hedited : State.Edited { s with queue := rest } s' name record
      { record.image with descriptors := record.image.descriptors.set i d' } (s.signer name))
    (hgenerated : s'.generated = s.generated)
    (hrequeue : s'.queue = ({ s with queue := rest } : State).requeue name record)
    (hbefore : record.image.descriptors[i]? = some d) (hframe : d'.frame = d.frame)
    (hdeclared : ∀ c key, d' = .chain c → c.publicKey = some key → key.Standard) :
    Step means found s s' issue rest name record
      { record.image with descriptors := record.image.descriptors.set i d' } (s.signer name) where
  queue := hqueue
  partition := hpartition
  edited := hedited.unpop
  kind := .inl ⟨rfl, hkind⟩
  frame := Image.map_frame_set hbefore hframe
  declared {c key} hc hkey := by
    rcases List.mem_or_eq_of_mem_set hc with hc | hc
    · exact hi.declared hedited.before hc hkey
    · exact hdeclared c key hc.symm hkey
  generated := by
    rw [hgenerated]
    exact hi.generated
  nodup := by
    have hnodup := Invariant.nodup_of_queue hi.queue hqueue
    rw [hrequeue]
    exact State.nodup_requeue hnodup.2
  stays other hother := by
    rw [hrequeue]
    exact State.mem_requeue.2 (.inl hother)
  added other hother := by
    rw [hrequeue] at hother
    -- Besides what waited there may be the signature of the image, if it embeds a key; and then it
    -- did so at the start.
    rcases State.mem_requeue.1 hother with hrest | ⟨rfl, hnone, hkey⟩
    · exact .inl hrest
    · obtain ⟨first, hfirst, -, hsame⟩ := hi.record hedited.before
      have hfirstKey : first.image.publicKey.isSome := (hsame hnone).2 ▸ hkey
      refine .inr ⟨.signature hfirst (.inl hfirstKey), fun n hn => ?_, fun n hn => ?_⟩
      · obtain rfl := Option.some.inj hn
        exact hi.waiting issue (Invariant.mem_of_first hqueue) _ hpartition
      · exact ⟨(Issue.invalidSignature.inj hn).symm, hnone⟩
  unsigned hnone := by
    refine ⟨rfl, rfl, fun hkey => ?_⟩
    rw [hrequeue]
    exact State.mem_requeue.2 (.inr ⟨rfl, hnone, hkey⟩)
  holders hnone hsome := by
    rw [hnone] at hsome
    cases hsome

/-- To mend a hash is a step. -/
theorem Underway.mendHash {index size : Int} {digest : Bytes} (hi : Underway means found s)
    (hqueue : s.queue = .hashMismatch name index size digest :: rest) :
    ∃ s', ({ s with queue := rest } : State).mendHash name index size digest = .ok s' ∧
      Underway means found s' := by
  have hmem : .hashMismatch name index size digest ∈ s.queue := Invariant.mem_of_first hqueue
  cases hi.mendable _ hmem with
  | @hash _ i _ _ first d hfirst hd =>
    obtain ⟨record, hrecord, hframe, -⟩ := hi.exists_record hfirst
    obtain ⟨d', hd', -⟩ := Image.SameFrame.hash (Eq.symm hframe) hd
    obtain ⟨s', hs'⟩ := @State.exists_mendHash { s with queue := rest } _ _ _ _ hrecord hd' size
      digest
    obtain ⟨before, e, he, hedited, hgenerated, hrequeue⟩ := State.mendHash_eq_ok hs'
    have hstep := hi.step_of_replaced hqueue rfl nofun hedited hgenerated hrequeue he rfl nofun
    exact ⟨s', hs', hstep.underway hi⟩

/-- To mend a chain descriptor is a step. -/
theorem Underway.mendChain {index : Int} {key : Option PublicKey} (hi : Underway means found s)
    (hqueue : s.queue = .publicKeyMismatch name index key :: rest) :
    ∃ s', ({ s with queue := rest } : State).mendChain name index key = .ok s' ∧
      Underway means found s' := by
  have hmem : .publicKeyMismatch name index key ∈ s.queue := Invariant.mem_of_first hqueue
  cases hi.mendable _ hmem with
  | @chain _ i _ first d hfirst hd hstandard =>
    obtain ⟨record, hrecord, hframe, -⟩ := hi.exists_record hfirst
    obtain ⟨d', hd', -⟩ := Image.SameFrame.chain (Eq.symm hframe) hd
    obtain ⟨s', hs'⟩ := @State.exists_mendChain { s with queue := rest } _ _ _ _ hrecord hd' key
    obtain ⟨before, e, he, hedited, hgenerated, hrequeue⟩ := State.mendChain_eq_ok hs'
    have hdeclared : ∀ c k, Descriptor.chain { e with publicKey := key } = .chain c →
        c.publicKey = some k → k.Standard := by
      intro c k hc hk
      obtain rfl := Descriptor.chain.inj hc
      exact hstandard k hk
    have hstep :=
      hi.step_of_replaced hqueue rfl nofun hedited hgenerated hrequeue he rfl hdeclared
    exact ⟨s', hs', hstep.underway hi⟩

/-- To settle a pair for an image is a step, if the issues that this adds are about those who have
a chain descriptor of the image. -/
theorem Underway.step_of_signed {header : Header} {key : Option PublicKey} {pair : KeyPair}
    (issues : List Issue) (hi : Underway means found s)
    (hqueue : s.queue = .invalidSignature name :: rest)
    (hedited : State.Edited { s with queue := rest } s' name record
      { record.image with header, publicKey := key } (some pair))
    (hgenerated : ∀ e ∈ s'.generated, means.generate e.1 = .ok e.2)
    (hnoted : s'.queue = issues.foldl Findings.noteIn rest)
    (hissues : ∀ issue ∈ issues, Mendable found issue ∧
      (∀ n, issue.partition? = some n → Affected means found n) ∧ ∀ n, issue ≠ .invalidSignature n)
    (hholders : NeedsKey means found name → Chained found name ∧
      ∀ p, p ≠ name → Chains found p name → ∃ issue ∈ issues, issue.partition? = some p) :
    Step means found s s' (.invalidSignature name) rest name record
      { record.image with header, publicKey := key } (some pair) where
  queue := hqueue
  partition := rfl
  edited := hedited.unpop
  kind := .inr ⟨rfl, rfl⟩
  frame := rfl
  declared hd hkey := hi.declared hedited.before hd hkey
  generated := hgenerated
  nodup := by
    have hnodup := Invariant.nodup_of_queue hi.queue hqueue
    rw [hnoted]
    exact Findings.nodup_foldl_noteIn hnodup.2 issues
  stays other hother := by
    rw [hnoted]
    exact Findings.mem_foldl_noteIn.2 (.inl hother)
  added other hother := by
    rw [hnoted] at hother
    -- Besides what waited there are the issues that are noted, none of them about a signature.
    refine (Findings.mem_foldl_noteIn.1 hother).imp_right fun hmem => ?_
    obtain ⟨hmendable, haffected, hkind⟩ := hissues other hmem
    exact ⟨hmendable, haffected, fun n hn => absurd hn (hkind n)⟩
  unsigned := nofun
  holders _ _ hneeds := by
    obtain ⟨hexists, hall⟩ := hholders hneeds
    refine ⟨hexists, fun p hp hchains => ?_⟩
    obtain ⟨other, hother, hpartition⟩ := hall p hp hchains
    rw [State.TakenUp, hnoted]
    exact .inr ⟨other, Findings.mem_foldl_noteIn.2 (.inr hother), hpartition⟩

/-- An image whose signature is an issue is as it was found, but for its descriptors. -/
theorem Underway.exists_unsettled (hi : Underway means found s) (hg : Grounded means found)
    (hmem : .invalidSignature name ∈ s.queue) :
    ∃ first record algorithm, found.records.lookup name = some first ∧
      (first.image.publicKey.isSome ∨ .invalidSignature name ∈ found.issues) ∧
      s.records.lookup name = some record ∧ record.image.publicKey = first.image.publicKey ∧
      record.image.algorithm = .ok algorithm := by
  cases hi.mendable _ hmem with
  | @signature _ first hfirst hdue =>
    obtain ⟨record, hrecord, -, hsame⟩ := hi.exists_record hfirst
    obtain ⟨hheader, hkey⟩ := hsame (hi.unsettled name hmem)
    obtain ⟨algorithm, halgorithm⟩ := hg.algorithm hfirst
    rw [Image.algorithm, ← hheader] at halgorithm
    exact ⟨first, record, algorithm, hfirst, hdue, hrecord, hkey, halgorithm⟩

/-- To sign with the pair at hand is a step. -/
theorem Underway.sign (hi : Underway means found s) (hg : Grounded means found)
    (hqueue : s.queue = .invalidSignature name :: rest) (hneeds : ¬NeedsKey means found name) :
    ∃ s', ({ s with queue := rest } : State).mendSignature means name = .ok s' ∧
      Underway means found s' := by
  have hmem : .invalidSignature name ∈ s.queue := Invariant.mem_of_first hqueue
  obtain ⟨first, record, algorithm, hfirst, hdue, hrecord, hkey, halgorithm⟩ :=
    hi.exists_unsettled hg hmem
  obtain ⟨pair, hfind, hpair⟩ := exists_findPair hfirst hdue hneeds { s with queue := rest }
  rw [← hkey] at hfind
  obtain ⟨s', hs'⟩ := @State.exists_signWith { s with queue := rest } _ _ pair _ hrecord halgorithm
    (hg.embedded hfirst hpair)
  obtain ⟨before, header, hedited, -, -, hgenerated, hwaiting⟩ := State.signWith_eq_ok hs'
  have hstep := hi.step_of_signed [] hqueue hedited (hgenerated ▸ hi.generated) hwaiting nofun
    fun hself => absurd hself hneeds
  have hmend : ({ s with queue := rest } : State).mendSignature means name =
      ({ s with queue := rest } : State).signWith name pair :=
    State.mendSignature_of_some hrecord hfind
  exact ⟨s', hmend.trans hs', hstep.underway hi⟩

/-- To give an image a new key is a step. -/
theorem Underway.of_rekey (hi : Underway means found s) (hg : Grounded means found)
    (hqueue : s.queue = .invalidSignature name :: rest) (hneeds : NeedsKey means found name)
    (h : ({ s with queue := rest } : State).rekey means name = .ok s') :
    Underway means found s' := by
  have haffected : Affected means found name :=
    hi.waiting _ (Invariant.mem_of_first hqueue) name rfl
  obtain ⟨refs, pair, before, header, hrefs, hedited, -, -, ⟨r₀, declared, hr₀, hpair⟩, horigin,
    hnoted⟩ := State.rekey_eq_ok h
  have hchained {r : Reference} {d : ChainDescriptor} (hr : (r, d) ∈ refs) :=
    (hi.pop rest).chains_of_mem hg hrefs hr
  have hgenerated : ∀ e ∈ s'.generated, means.generate e.1 = .ok e.2 := by
    intro e he
    rcases horigin e he with he | hmade
    · exact hi.generated e he
    · exact hmade
  -- The size of the new pair is that of the key in the first chain descriptor, or the one for want
  -- of a key.
  have hstandard : pair.publicKey.Standard := by
    obtain ⟨href, -, -, hat⟩ := (State.mem_chainReferences hrefs).1 hr₀
    obtain ⟨i, hindex⟩ := hg.index r₀ (hi.references ▸ href)
    obtain ⟨size, hsize⟩ := (hi.pop rest).standard_freshBits hindex hat
    exact (hg.of_generate (hsize ▸ hgenerated _ hpair)).1
  refine (hi.step_of_signed (refs.map fun r => State.stale pair r.1) hqueue hedited hgenerated
    hnoted ?_ fun _ => ⟨?_, fun p hp hchains => ?_⟩).underway hi
  -- Each issue is about a holder of a chain descriptor, and each holder is among the references.
  · intro issue hissue
    obtain ⟨⟨r, d⟩, hr, rfl⟩ := List.mem_map.1 hissue
    obtain ⟨hholder, hchains, hmendable⟩ := hchained hr
    refine ⟨hmendable pair hstandard, fun n hn => ?_, nofun⟩
    obtain rfl := Option.some.inj hn
    exact .holder haffected hneeds hholder hchains
  · obtain ⟨hholder, hchains, -⟩ := hchained hr₀
    exact ⟨r₀.holder, hholder, hchains⟩
  · obtain ⟨r, d, hr, rfl⟩ := (hi.pop rest).exists_mem_of_chains hrefs hp hchains
    exact ⟨State.stale pair r, List.mem_map.2 ⟨_, hr, rfl⟩, rfl⟩

/-- An image that has to get a new key gets one, unless no other partition has a chain descriptor
of it. -/
theorem Underway.rekey (hi : Underway means found s) (hg : Grounded means found)
    (hqueue : s.queue = .invalidSignature name :: rest) (hneeds : NeedsKey means found name) :
    (∃ s', ({ s with queue := rest } : State).mendSignature means name = .ok s' ∧
      Underway means found s') ∨
    ¬Chained found name ∧
      ({ s with queue := rest } : State).mendSignature means name =
        .error (.unrepairable (.unsignable name)) := by
  have hmem : .invalidSignature name ∈ s.queue := Invariant.mem_of_first hqueue
  obtain ⟨first, record, algorithm, hfirst, -, hrecord, hkey, halgorithm⟩ :=
    hi.exists_unsettled hg hmem
  have hfind : ({ s with queue := rest } : State).findPair means record.image.publicKey = none := by
    rw [hkey]
    exact hg.findPair_eq_none hi.generated hfirst hneeds
  have hmend : ({ s with queue := rest } : State).mendSignature means name =
      ({ s with queue := rest } : State).rekey means name :=
    State.mendSignature_of_none hrecord hfind
  have hindex : ∀ r ∈ s.references, ∃ i : Nat, r.index = i := by
    rw [hi.references]
    exact hg.index
  obtain ⟨refs, hrefs⟩ := @State.exists_chainReferences { s with queue := rest } hindex name
  rw [hmend]
  -- Without references the new key could be told to nobody, which is the one failure that there is.
  by_cases hnil : refs = []
  · refine .inr ⟨?_, ?_⟩
    · rintro ⟨p, hp, hchains⟩
      obtain ⟨_, _, href, -⟩ := (hi.pop rest).exists_mem_of_chains hrefs hp hchains
      rw [hnil] at href
      exact List.not_mem_nil href
    · rw [State.rekey, hrefs, hnil]
      rfl
  · obtain ⟨s', hs'⟩ :=
      (hi.pop rest).exists_rekey hg hrefs hi.generated hrecord halgorithm hnil
    exact .inl ⟨s', hs', hi.of_rekey hg hqueue hneeds hs'⟩

/-- **The step lemma.** The first issue that waits can be mended, or it is about an image that has
to get a new key and that no other partition has a chain descriptor of. -/
theorem Underway.handle (hi : Underway means found s) (hg : Grounded means found)
    (hqueue : s.queue = issue :: rest) :
    (∃ s', ({ s with queue := rest } : State).handle means issue = .ok s' ∧
      Underway means found s') ∨
    ∃ q, Rekeyed means found q ∧ ¬Chained found q ∧
      ({ s with queue := rest } : State).handle means issue =
        .error (.unrepairable (.unsignable q)) := by
  have hmem : issue ∈ s.queue := Invariant.mem_of_first hqueue
  have hmendable := hi.mendable issue hmem
  cases issue with
  | hashMismatch name index size digest => exact .inl (hi.mendHash hqueue)
  | publicKeyMismatch name index key => exact .inl (hi.mendChain hqueue)
  | invalidSignature name =>
    by_cases hneeds : NeedsKey means found name
    · refine (hi.rekey hg hqueue hneeds).imp_right fun ⟨hnone, herror⟩ => ?_
      exact ⟨name, ⟨hi.waiting _ hmem name rfl, hneeds⟩, hnone, herror⟩
    · exact .inl (hi.sign hg hqueue hneeds)
  | invalidPartitionData name => cases hmendable
  | other label serial => cases hmendable

/-- **The run lemma.** Whatever the limit, unless it is exceeded the queue is worked off, or an
image has to get a new key and no other partition has a chain descriptor of it. -/
theorem Underway.drain {limit : Nat} (hi : Underway means found s) (hg : Grounded means found)
    (hlimit : s.drain means limit ≠ .error (.unrepairable .tooManySteps)) :
    (∃ s', s.drain means limit = .ok s' ∧ Underway means found s' ∧ s'.queue = []) ∨
    ∃ q, Rekeyed means found q ∧ ¬Chained found q ∧
      s.drain means limit = .error (.unrepairable (.unsignable q)) := by
  -- Each step hands the invariant on to the next, with one step less to go.
  induction limit using Nat.strongRecOn generalizing s with
  | _ limit ih =>
  cases hqueue : s.queue with
  | nil => exact .inl ⟨s, State.drain_of_nil hqueue, hi, hqueue⟩
  | cons issue rest =>
    rcases hi.handle hg hqueue with ⟨next, hhandle, hnext⟩ | ⟨q, hq, hunchained, herror⟩
    · cases limit with
      | zero => exact absurd (State.drain_zero_of_handle hqueue hhandle) hlimit
      | succ limit =>
        rw [State.drain_succ_of_handle hqueue hhandle] at hlimit ⊢
        exact ih limit (Nat.lt_succ_self limit) hnext hlimit
    · exact .inr ⟨q, hq, hunchained, State.drain_of_error hqueue herror⟩

end Repair

end VerifiedBoot
