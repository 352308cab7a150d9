import VerifiedBoot.Proofs.Repair.Invariant

/-!
# Mending a signature

A pair is settled for an image: one at hand for the key that the image embeds, or a new one, whose
key the image gets. `Signed` is what both have in common. With a new key all chain descriptors of
other partitions that name the image are put into question, so that none of these is stale without
an issue.
-/

namespace VerifiedBoot

namespace Repair

variable {plan : Plan} {s s' : State} {rest issues : List Issue} {name : String}
  {record : Record} {header : Header} {pair : KeyPair}

/-- A step handles an issue about a signature: the image gets the key of a pair, which signs it from
now on, and issues about chain descriptors that name the image. -/
structure Signed (plan : Plan) (s s' : State) (rest issues : List Issue) (name : String)
    (record : Record) (header : Header) (pair : KeyPair) : Prop where
  queue : s.queue = .invalidSignature name :: rest
  edited : State.Edited s s' name record
    { record.image with header, publicKey := some pair.publicKey } (some pair)
  keyInRange : pair.publicKey.InRange
  noted : s'.queue = issues.foldl Findings.noteIn rest
  named : ∀ issue ∈ issues, ∃ (p : String) (i : Nat), plan.chained p i name ∧ p ≠ name ∧
    issue = .publicKeyMismatch p i (some pair.publicKey)
  /-- Unless the image has had the key before, all chain descriptors of other partitions are put
  into question. -/
  covered : record.image.publicKey = some pair.publicKey ∨ ∀ p i, plan.chained p i name →
    p ≠ name → .publicKeyMismatch p i (some pair.publicKey) ∈ issues

namespace Signed

/-- No pair was settled for the image, since its signature was an issue. -/
theorem unsettled (h : Signed plan s s' rest issues name record header pair)
    (hi : Invariant plan s) : s.signer name = none := by
  by_contra hsome
  obtain ⟨other, hother⟩ := Option.ne_none_iff_exists'.1 hsome
  exact (hi.signer hother).1 (Invariant.mem_of_first h.queue)

theorem mem_after (h : Signed plan s s' rest issues name record header pair) {other : Issue}
    (hother : other ∈ s.queue) (hne : other ≠ .invalidSignature name) : other ∈ s'.queue := by
  rw [h.queue] at hother
  rw [h.noted, Findings.mem_foldl_noteIn]
  exact .inl ((List.mem_cons.1 hother).resolve_left hne)

/-- What waits now waited before, or is about a chain descriptor that names the image. -/
theorem mem_before (h : Signed plan s s' rest issues name record header pair) {other : Issue}
    (hother : other ∈ s'.queue) : other ∈ rest ∨ ∃ (p : String) (i : Nat),
      plan.chained p i name ∧ other = .publicKeyMismatch p i (some pair.publicKey) := by
  rw [h.noted, Findings.mem_foldl_noteIn] at hother
  refine hother.imp_right fun hissue => ?_
  obtain ⟨p, i, hchained, -, heq⟩ := h.named other hissue
  exact ⟨p, i, hchained, heq⟩

/-- Every image keeps its descriptors. -/
theorem exists_before (h : Signed plan s s' rest issues name record header pair) {n : String}
    {found : Record} (hfound : s'.records.lookup n = some found) :
    ∃ old, s.records.lookup n = some old ∧ found.image.descriptors = old.image.descriptors := by
  rcases h.edited.lookup hfound with ⟨rfl, rfl⟩ | ⟨-, hfound⟩
  · exact ⟨record, h.edited.before, rfl⟩
  · exact ⟨found, hfound, rfl⟩

theorem kept (h : Signed plan s s' rest issues name record header pair)
    (hi : Invariant plan s) : Kept plan s' :=
  h.edited.kept hi.toKept rfl rfl

theorem settled (h : Signed plan s s' rest issues name record header pair)
    (hi : Invariant plan s) : Settled s' := by
  intro n other hpair
  have hsignature (hmem : .invalidSignature n ∈ s'.queue) : .invalidSignature n ∈ rest := by
    rcases h.mem_before hmem with hmem | ⟨p, i, -, heq⟩
    · exact hmem
    · exact absurd heq (by simp)
  by_cases hn : n = name
  · subst hn
    obtain rfl := Option.some.inj (h.edited.signer_self.symm.trans hpair)
    have hnodup := Invariant.nodup_of_queue hi.queue h.queue
    refine ⟨fun hmem => hnodup.1 (hsignature hmem), ?_⟩
    intro found hfound
    obtain rfl := Option.some.inj (h.edited.after.symm.trans hfound)
    rfl
  · rw [h.edited.signer_of_ne hn] at hpair
    obtain ⟨hsettled, hsame⟩ := hi.signer hpair
    refine ⟨fun hmem => hsettled (Invariant.mem_of_rest h.queue (hsignature hmem)), ?_⟩
    intro found hfound
    rw [h.edited.others n hn] at hfound
    exact hsame found hfound

theorem hashesDue (h : Signed plan s s' rest issues name record header pair)
    (hi : Invariant plan s) : HashesDue plan s' := by
  intro p i m hm
  rcases hi.hashes hm with hmem | ⟨old, d, hold, hd, hagrees⟩
  · exact .inl (h.mem_after hmem (by simp))
  · refine .inr ?_
    by_cases hp : p = name
    · subst hp
      obtain rfl := Option.some.inj (hold.symm.trans h.edited.before)
      exact ⟨_, d, h.edited.after, hd, hagrees⟩
    · exact ⟨old, d, (h.edited.others p hp).trans hold, hd, hagrees⟩

theorem mismatchesMeasured (h : Signed plan s s' rest issues name record header pair)
    (hi : Invariant plan s) : MismatchesMeasured plan s' := by
  intro p index size digest hmem
  rcases h.mem_before hmem with hmem | ⟨p', i, -, heq⟩
  · exact hi.mismatches (Invariant.mem_of_rest h.queue hmem)
  · exact absurd heq (by simp)

/-- Issues about a chain descriptor that names the image are all about the key that it embeds. -/
theorem embedded_of_mem (h : Signed plan s s' rest issues name record header pair)
    (hi : Invariant plan s) (hsound : plan.Sound) {p : String} {i : Nat}
    (hchained : plan.chained p i name) {key : Option PublicKey}
    (hmem : .publicKeyMismatch p i key ∈ rest) : record.image.publicKey = key := by
  obtain ⟨j, t, k, hj, hchained', -, -, hembedded⟩ :=
    hi.staleKeys (Invariant.mem_of_rest h.queue hmem)
  rw [← Int.ofNat_inj.1 hj] at hchained'
  obtain rfl := hsound.chained_unique hchained hchained'
  exact hembedded (h.unsettled hi) record h.edited.before

/-- A chain descriptor of another partition that names the image will have the key of the pair. -/
theorem dueKey_of_named (h : Signed plan s s' rest issues name record header pair)
    (hi : Invariant plan s) (hsound : plan.Sound) {p : String} {i : Nat}
    (hchained : plan.chained p i name) (hne : p ≠ name) {holder : Record} {d : ChainDescriptor}
    (hholder : s.records.lookup p = some holder)
    (hd : holder.image.descriptors[i]? = some (.chain d)) :
    dueKey p i d.publicKey s'.queue = some pair.publicKey := by
  have hall : ∀ k, .publicKeyMismatch p i k ∈ issues → k = some pair.publicKey := by
    intro k hk
    obtain ⟨p', j, -, -, heq⟩ := h.named _ hk
    exact (Issue.publicKeyMismatch.inj heq).2.2
  rw [h.noted]
  by_cases hnoted : .publicKeyMismatch p i (some pair.publicKey) ∈ issues
  · -- An issue with this key may wait already. Then all that wait have this key.
    refine dueKey_foldl_noteIn hall hnoted ?_
    intro hwaits k hk
    exact (h.embedded_of_mem hi hsound hchained hk).symm.trans
      (h.embedded_of_mem hi hsound hchained hwaits)
  · have hembedded := h.covered.resolve_right fun hcovered => hnoted (hcovered p i hchained hne)
    have hothers : ∀ issue ∈ issues, Apart p i issue := by
      rintro issue hissue key rfl
      rw [hall key hissue] at hissue
      exact hnoted hissue
    have hdue := hi.keys hchained hne hholder hd h.edited.before
    rw [h.queue, dueKey_cons_of_apart (by simp [Apart]), hembedded] at hdue
    rw [dueKey_foldl_noteIn_of_apart hothers]
    exact hdue.resolve_right (by simp)

/-- A chain descriptor that names another image, or the image from its own partition, will have the
key that it was to have. -/
theorem dueKey_of_other (h : Signed plan s s' rest issues name record header pair)
    (hsound : plan.Sound) {p t : String} {i : Nat} (hchained : plan.chained p i t)
    (hother : t ≠ name ∨ p = name) (key : Option PublicKey) :
    dueKey p i key s'.queue = dueKey p i key s.queue := by
  have hothers : ∀ issue ∈ issues, Apart p i issue := by
    rintro issue hissue k rfl
    obtain ⟨p', j, hchained', hne, heq⟩ := h.named _ hissue
    obtain ⟨rfl, hj, -⟩ := Issue.publicKeyMismatch.inj heq
    rw [← Int.ofNat_inj.1 hj] at hchained'
    rcases hother with ht | hp
    · exact ht (hsound.chained_unique hchained hchained')
    · exact hne hp
  rw [h.noted, dueKey_foldl_noteIn_of_apart hothers, h.queue,
    dueKey_cons_of_apart (by simp [Apart])]

theorem keysDue (h : Signed plan s s' rest issues name record header pair)
    (hi : Invariant plan s) (hsound : plan.Sound) : KeysDue plan s' := by
  intro p i t hchained hne holder d target hholder hd htarget
  obtain ⟨old, hold, hsame⟩ := h.exists_before hholder
  rw [hsame] at hd
  by_cases ht : t = name
  · subst ht
    obtain rfl := Option.some.inj (h.edited.after.symm.trans htarget)
    exact .inl (h.dueKey_of_named hi hsound hchained hne hold hd)
  · rw [h.edited.others t ht] at htarget
    rw [h.dueKey_of_other hsound hchained (.inl ht)]
    exact hi.keys hchained hne hold hd htarget

theorem ownKeysDue (h : Signed plan s s' rest issues name record header pair)
    (hi : Invariant plan s) (hsound : plan.Sound) : OwnKeysDue plan s' := by
  intro p i hchained holder d hholder hd
  obtain ⟨old, hold, hsame⟩ := h.exists_before hholder
  rw [hsame] at hd
  rw [h.dueKey_of_other hsound hchained (ne_or_eq p name)]
  exact hi.ownKeys hchained hold hd

theorem staleKeysEmbedded (h : Signed plan s s' rest issues name record header pair)
    (hi : Invariant plan s) : StaleKeysEmbedded plan s' := by
  intro p index key hmem
  rcases h.mem_before hmem with hmem | ⟨p', i, hchained, heq⟩
  · obtain ⟨i, t, k, hindex, hchained, hk, hrange, hembedded⟩ :=
      hi.staleKeys (Invariant.mem_of_rest h.queue hmem)
    refine ⟨i, t, k, hindex, hchained, hk, hrange, ?_⟩
    intro hnone target htarget
    have ht : t ≠ name := by
      rintro rfl
      exact absurd (h.edited.signer_self.symm.trans hnone) (by simp)
    rw [h.edited.signer_of_ne ht] at hnone
    rw [h.edited.others t ht] at htarget
    exact hembedded hnone target htarget
  · obtain ⟨rfl, rfl, rfl⟩ := Issue.publicKeyMismatch.inj heq
    refine ⟨i, name, pair.publicKey, rfl, hchained, rfl, h.keyInRange, ?_⟩
    intro hnone
    exact absurd (h.edited.signer_self.symm.trans hnone) (by simp)

theorem signaturesDue (h : Signed plan s s' rest issues name record header pair)
    (hi : Invariant plan s) : SignaturesDue plan s' := by
  intro n found htrusted hfound hneeds
  by_cases hn : n = name
  · rw [hn, h.edited.signer_self]
    exact .inl rfl
  · rw [h.edited.others n hn] at hfound
    rw [h.edited.signer_of_ne hn, h.edited.changed, Entries.lookup_assign_of_ne hn]
    refine (hi.signatures htrusted hfound hneeds).imp_right (Or.imp_left ?_)
    intro hmem
    exact h.mem_after hmem (by simpa using hn)

/-- To settle a pair preserves the invariant. -/
theorem invariant (h : Signed plan s s' rest issues name record header pair)
    (hi : Invariant plan s) (hsound : plan.Sound) : Invariant plan s' where
  toKept := h.kept hi
  signer := h.settled hi
  queue := by
    have hnodup := Invariant.nodup_of_queue hi.queue h.queue
    rw [h.noted]
    exact Findings.nodup_foldl_noteIn hnodup.2 issues
  hashes := h.hashesDue hi
  mismatches := h.mismatchesMeasured hi
  keys := h.keysDue hi hsound
  ownKeys := h.ownKeysDue hi hsound
  staleKeys := h.staleKeysEmbedded hi
  signatures := h.signaturesDue hi

end Signed

namespace Invariant

/-- The references that a new key puts into question are the chain descriptors of other partitions
that name the image. -/
theorem mem_chainReferences_iff (hi : Invariant plan s) (hsound : plan.Sound)
    {refs : List (Reference × ChainDescriptor)} (hrefs : s.chainReferences name = .ok refs)
    {r : Reference} : (∃ d, (r, d) ∈ refs) ↔ r.partition = name ∧ r.holder ≠ name ∧
      ∃ i : Nat, r.index = i ∧ plan.chained r.holder i name := by
  constructor
  · rintro ⟨d, hmem⟩
    obtain ⟨href, rfl, hholder, hat⟩ := (State.mem_chainReferences hrefs).1 hmem
    rw [hi.references] at href
    -- The descriptor that is there now has the frame of the one at the start, so it names the same
    -- partition.
    obtain ⟨i, hindex, hchained⟩ := hsound.chained href
    obtain ⟨record, hrecord, hd⟩ := (State.chainAt_eq_ok hindex).1 hat
    obtain ⟨first, hfirst, -, -, hframe, -⟩ := hi.record hrecord
    obtain ⟨d', hd', -⟩ := hframe.chain hd
    exact ⟨rfl, hholder, i, hindex, hchained first d' hfirst hd'⟩
  · rintro ⟨rfl, hholder, i, hindex, hchained⟩
    obtain ⟨first, d, hfirst, hd⟩ := hsound.descriptor hchained
    obtain ⟨record, hrecord⟩ := hi.present hfirst
    obtain ⟨first', hfirst', -, -, hframe, -⟩ := hi.record hrecord
    obtain rfl := Option.some.inj (hfirst.symm.trans hfirst')
    obtain ⟨d', hd', -⟩ := Image.SameFrame.chain (Eq.symm hframe) hd
    refine ⟨d', (State.mem_chainReferences hrefs).2 ⟨?_, rfl, hholder, ?_⟩⟩
    · have href := hsound.reference hchained
      rw [← hindex] at href
      rw [hi.references]
      exact href
    · exact (State.chainAt_eq_ok hindex).2 ⟨record, hrecord, hd'⟩

/-- To mend a signature preserves the invariant. -/
theorem mendSignature {means : Means} (hi : Invariant plan s) (hsound : plan.Sound)
    (hqueue : s.queue = .invalidSignature name :: rest)
    (h : ({ s with queue := rest } : State).mendSignature means name = .ok s') :
    Invariant plan s' := by
  rcases State.mendSignature_eq_ok h with
    ⟨pair, record, header, hkey, -, hedited, hshaped, hrange, -, hwaiting⟩ | hrekey
  · have himage : ({ record.image with header } : Image) =
        { record.image with header, publicKey := some pair.publicKey } := by
      rw [← hkey]
    rw [himage] at hedited
    -- The image has the key already, so no chain descriptor is put into question.
    have hstep : Signed plan s s' rest [] name record header pair :=
      { queue := hqueue
        edited := hedited.unpop
        keyInRange := hrange
        noted := hwaiting
        named := by simp
        covered := .inl hkey }
    exact hstep.invariant hi hsound
  · obtain ⟨refs, pair, record, header, hrefs, hedited, -, hkey, -, -, hwaiting⟩ :=
      State.rekey_eq_ok hrekey
    have hchained {r : Reference} := @mem_chainReferences_iff _ s name hi hsound refs hrefs r
    have hstep : Signed plan s s' rest (refs.map fun r => State.stale pair r.1)
        name record header pair :=
      { queue := hqueue
        edited := hedited.unpop
        keyInRange := hkey
        noted := hwaiting
        named := by
          intro issue hissue
          obtain ⟨⟨r, d⟩, hr, rfl⟩ := List.mem_map.1 hissue
          obtain ⟨-, hholder, i, hindex, hnamed⟩ := hchained.1 ⟨d, hr⟩
          refine ⟨r.holder, i, hnamed, hholder, ?_⟩
          rw [State.stale, hindex]
        covered := by
          refine .inr fun p i hnamed hne => ?_
          obtain ⟨d, hr⟩ := (@hchained ⟨name, p, i⟩).2 ⟨rfl, hne, i, rfl, hnamed⟩
          exact List.mem_map.2 ⟨_, hr, rfl⟩ }
    exact hstep.invariant hi hsound

end Invariant

end Repair

end VerifiedBoot
