import VerifiedBoot.Proofs.Repair.Invariant

/-!
# Mending a descriptor

A hash gets what was measured, and a chain descriptor the key of the image. Either way one
descriptor is replaced, and the signature of its image is put into question unless a pair is settled
for it. `Replaced` is what both have in common, and most parts of the invariant follow from it
alone.
-/

namespace VerifiedBoot

namespace Repair

variable {plan : Plan} {s s' : State} {issue : Issue} {rest : List Issue} {name : String}
  {record : Record} {i : Nat} {d d' : Descriptor}

/-- A step handles an issue that is not about a signature, and replaces a descriptor. -/
structure Replaced (s s' : State) (issue : Issue) (rest : List Issue) (name : String)
    (record : Record) (i : Nat) (d d' : Descriptor) : Prop where
  queue : s.queue = issue :: rest
  kind : ∀ n, issue ≠ .invalidSignature n
  edited : State.Edited s s' name record
    { record.image with descriptors := record.image.descriptors.set i d' } (s.signer name)
  requeue : s'.queue = ({ s with queue := rest } : State).requeue name record
  before : record.image.descriptors[i]? = some d
  frame : d'.frame = d.frame

namespace Replaced

theorem mem_queue (h : Replaced s s' issue rest name record i d d') {other : Issue} :
    other ∈ s'.queue ↔ other ∈ rest ∨
      (other = .invalidSignature name ∧ s.signer name = none ∧ record.image.publicKey.isSome) := by
  rw [h.requeue]
  exact State.mem_requeue

/-- An issue about something else than signatures waited before. -/
theorem mem_before (h : Replaced s s' issue rest name record i d d') {other : Issue}
    (hother : other ∈ s'.queue) (hkind : ∀ n, other ≠ .invalidSignature n) : other ∈ s.queue := by
  rcases h.mem_queue.1 hother with hrest | ⟨hsignature, -⟩
  · exact Invariant.mem_of_rest h.queue hrest
  · exact absurd hsignature (hkind name)

/-- Every partition keeps its pair. -/
theorem signer_eq (h : Replaced s s' issue rest name record i d d') (n : String) :
    s'.signer n = s.signer n := by
  by_cases hn : n = name
  · rw [hn]
    exact h.edited.signer_self
  · exact h.edited.signer_of_ne hn

/-- Every image keeps its key and what was read about its signature. -/
theorem exists_before (h : Replaced s s' issue rest name record i d d') {n : String}
    {found : Record} (hfound : s'.records.lookup n = some found) :
    ∃ old, s.records.lookup n = some old ∧ found.image.publicKey = old.image.publicKey ∧
      found.image.authentication = old.image.authentication := by
  rcases h.edited.lookup hfound with ⟨rfl, rfl⟩ | ⟨-, hfound⟩
  · exact ⟨record, h.edited.before, rfl, rfl⟩
  · exact ⟨found, hfound, rfl, rfl⟩

theorem kept (h : Replaced s s' issue rest name record i d d') (hi : Invariant plan s) :
    Kept plan s' :=
  h.edited.kept hi.toKept rfl (Image.map_frame_set h.before h.frame)

theorem settled (h : Replaced s s' issue rest name record i d d') (hi : Invariant plan s) :
    Settled s' := by
  intro n pair hpair
  rw [h.signer_eq n] at hpair
  obtain ⟨hsettled, hsame⟩ := hi.signer hpair
  refine ⟨?_, ?_⟩
  · intro hmem
    rcases h.mem_queue.1 hmem with hrest | ⟨heq, hnone, -⟩
    · exact hsettled (Invariant.mem_of_rest h.queue hrest)
    · rw [← Issue.invalidSignature.inj heq, hpair] at hnone
      cases hnone
  · intro found hfound
    obtain ⟨old, hold, hkey, -⟩ := h.exists_before hfound
    rw [hkey]
    exact hsame old hold

theorem nodup (h : Replaced s s' issue rest name record i d d') (hi : Invariant plan s) :
    s'.queue.Nodup := by
  have hnodup := Invariant.nodup_of_queue hi.queue h.queue
  rw [h.requeue]
  exact State.nodup_requeue hnodup.2

theorem staleKeysEmbedded (h : Replaced s s' issue rest name record i d d')
    (hi : Invariant plan s) : StaleKeysEmbedded plan s' := by
  intro p index key hmem
  obtain ⟨j, t, k, hindex, hchained, hkey, hk, hcurrent⟩ :=
    hi.staleKeys (h.mem_before hmem (by simp))
  refine ⟨j, t, k, hindex, hchained, hkey, hk, ?_⟩
  intro hnone target htarget
  rw [h.signer_eq t] at hnone
  obtain ⟨old, hold, hsame, -⟩ := h.exists_before htarget
  rw [hsame]
  exact hcurrent hnone old hold

/-- The signature of an image that is changed for the first time is put into question. -/
theorem signaturesDue (h : Replaced s s' issue rest name record i d d')
    (hi : Invariant plan s) (hsound : plan.Sound) : SignaturesDue plan s' := by
  intro n found htrusted hfound hneeds
  obtain ⟨old, hold, hsame, hauthentication⟩ := h.exists_before hfound
  rw [hsame] at hneeds
  rcases hi.signatures htrusted hold hneeds with hpair | hmem | ⟨hunchanged, hvalid⟩
  · rw [h.signer_eq n]
    exact .inl hpair
  · rw [h.queue] at hmem
    have hrest := (List.mem_cons.1 hmem).resolve_left (h.kind n).symm
    exact .inr (.inl (h.mem_queue.2 (.inl hrest)))
  · by_cases hn : n = name
    · -- The image verified as it was, so it embeds a key, and its signature is an issue now.
      subst hn
      obtain rfl := Option.some.inj (hold.symm.trans h.edited.before)
      obtain ⟨first, hfirst, -, -, -, hfirstSame⟩ := hi.record hold
      have hembedded : old.image.publicKey.isSome := by
        rw [hfirstSame hunchanged] at hvalid ⊢
        exact hsound.embedded hfirst hvalid
      have hunsettled : s.signer n = none := by
        rw [State.signer, hunchanged]
        rfl
      exact .inr (.inl (h.mem_queue.2 (.inr ⟨rfl, hunsettled, hembedded⟩)))
    · refine .inr (.inr ⟨?_, ?_⟩)
      · rw [h.edited.changed, Entries.lookup_assign_of_ne hn]
        exact hunchanged
      · rw [Image.signatureValid, hauthentication]
        exact hvalid

/-- Where the issue was not about the hash, it is as it was. -/
theorem hash_of_apart (h : Replaced s s' issue rest name record i d d')
    (hi : Invariant plan s) {p : String} {j : Nat} {m : Measurement}
    (hm : plan.measured p j m) (hissue : issue ≠ .hashMismatch p j m.size m.digest)
    (hother : ∀ e, .hash e = d → ¬(p = name ∧ j = i)) :
    .hashMismatch p j m.size m.digest ∈ s'.queue ∨
      ∃ record e, s'.records.lookup p = some record ∧
        record.image.descriptors[j]? = some (.hash e) ∧ e.imageSize = m.size ∧
          e.digest = m.digest := by
  rcases hi.hashes hm with hmem | ⟨old, e, hold, he, hagrees⟩
  · rw [h.queue] at hmem
    have hrest := (List.mem_cons.1 hmem).resolve_left hissue.symm
    exact .inl (h.mem_queue.2 (.inl hrest))
  · have hne : ¬(p = name ∧ j = i) := by
      intro hself
      refine hother e ?_ hself
      obtain ⟨rfl, rfl⟩ := hself
      obtain rfl := Option.some.inj (hold.symm.trans h.edited.before)
      exact Option.some.inj (he.symm.trans h.before)
    obtain ⟨new, hnew, he'⟩ := h.edited.getElem?_of_ne hne hold he
    exact .inr ⟨new, e, hnew, he', hagrees⟩

theorem hashesDue_of_hash {e : HashDescriptor} {m : Measurement}
    (h : Replaced s s' (.hashMismatch name i m.size m.digest) rest name record i (.hash e)
      (.hash { e with imageSize := m.size, digest := m.digest }))
    (hi : Invariant plan s) (hsound : plan.Sound) (hmeasured : plan.measured name i m) :
    HashesDue plan s' := by
  intro p j m' hm'
  by_cases hself : p = name ∧ j = i
  · obtain ⟨rfl, rfl⟩ := hself
    obtain rfl := hsound.measured_unique hmeasured hm'
    have hnew := h.edited.getElem?_self h.before h.edited.after
    exact .inr ⟨_, _, h.edited.after, hnew, rfl, rfl⟩
  · refine h.hash_of_apart hi hm' ?_ fun _ _ => hself
    intro heq
    obtain ⟨hp, hj, -⟩ := Issue.hashMismatch.inj heq
    exact hself ⟨hp.symm, (Int.ofNat_inj.1 hj).symm⟩

theorem hashesDue_of_chain {c c' : ChainDescriptor} {key : Option PublicKey}
    (h : Replaced s s' (.publicKeyMismatch name i key) rest name record i (.chain c) (.chain c'))
    (hi : Invariant plan s) : HashesDue plan s' := by
  intro p j m hm
  exact h.hash_of_apart hi hm (by simp) (by simp)

/-- The key that a chain descriptor is due was due before, if the issue is not about it. -/
theorem dueKey_of_apart (h : Replaced s s' issue rest name record i d d') {p : String} {j : Nat}
    (hissue : Apart p j issue) (key : Option PublicKey) :
    dueKey p j key s'.queue = dueKey p j key s.queue := by
  rw [h.requeue, State.dueKey_requeue, h.queue, dueKey_cons_of_apart hissue]

/-- To mend a hash leaves the keys that are due as they were. -/
theorem sameDueKeys_of_hash {e e' : HashDescriptor} {m : Measurement}
    (h : Replaced s s' (.hashMismatch name i m.size m.digest) rest name record i (.hash e)
      (.hash e')) : State.SameDueKeys s s' := by
  intro p j holder c hholder hc
  have hne : ¬(p = name ∧ j = i) := by
    rintro ⟨rfl, rfl⟩
    exact absurd ((h.edited.getElem?_self h.before hholder).symm.trans hc) (by simp)
  obtain ⟨old, hold, hc'⟩ := h.edited.getElem?_before hne hholder hc
  exact ⟨old, c, hold, hc', (h.dueKey_of_apart (by simp [Apart]) c.publicKey).symm⟩

/-- To mend a chain descriptor leaves the keys that are due as they were: the descriptor has the
key now that it was to get, and later issues still count. -/
theorem sameDueKeys_of_chain {c : ChainDescriptor} {key : Option PublicKey}
    (h : Replaced s s' (.publicKeyMismatch name i key) rest name record i (.chain c)
      (.chain { c with publicKey := key })) : State.SameDueKeys s s' := by
  intro p j holder c' hholder hc
  by_cases hself : p = name ∧ j = i
  · obtain ⟨rfl, rfl⟩ := hself
    have hnew := h.edited.getElem?_self h.before hholder
    obtain rfl := Descriptor.chain.inj (Option.some.inj (hc.symm.trans hnew))
    refine ⟨record, c, h.edited.before, h.before, ?_⟩
    rw [h.queue, dueKey_cons_self, h.requeue, State.dueKey_requeue]
  · have hissue : Apart p j (.publicKeyMismatch name i key) := by
      rintro other heq
      obtain ⟨hp, hj, -⟩ := Issue.publicKeyMismatch.inj heq
      exact hself ⟨hp.symm, (Int.ofNat_inj.1 hj).symm⟩
    obtain ⟨old, hold, hc'⟩ := h.edited.getElem?_before hself hholder hc
    exact ⟨old, c', hold, hc', (h.dueKey_of_apart hissue c'.publicKey).symm⟩

theorem keysDue (h : Replaced s s' issue rest name record i d d') (hi : Invariant plan s)
    (hsame : State.SameDueKeys s s') : KeysDue plan s' := by
  intro p j t hchained hne holder c target hholder hc htarget
  obtain ⟨old, c', hold, hc', hdue⟩ := hsame hholder hc
  obtain ⟨before, hbefore, hkey, -⟩ := h.exists_before htarget
  rw [← hdue, hkey]
  exact hi.keys hchained hne hold hc' hbefore

theorem ownKeysDue (hi : Invariant plan s) (hsame : State.SameDueKeys s s') :
    OwnKeysDue plan s' := by
  intro p j hchained holder c hholder hc
  obtain ⟨old, c', hold, hc', hdue⟩ := hsame hholder hc
  rw [← hdue]
  exact hi.ownKeys hchained hold hc'

/-- What is left to show is that hashes and the keys of chain descriptors are as they should be. -/
theorem invariant (h : Replaced s s' issue rest name record i d d') (hi : Invariant plan s)
    (hsound : plan.Sound) (hhashes : HashesDue plan s') (hsame : State.SameDueKeys s s') :
    Invariant plan s' where
  toKept := h.kept hi
  signer := h.settled hi
  queue := h.nodup hi
  hashes := hhashes
  mismatches hmem := hi.mismatches (h.mem_before hmem (by simp))
  keys := h.keysDue hi hsame
  ownKeys := ownKeysDue hi hsame
  staleKeys := h.staleKeysEmbedded hi
  signatures := h.signaturesDue hi hsound

end Replaced

namespace Invariant

/-- To mend a hash preserves the invariant. -/
theorem mendHash {i size : Int} {digest : Bytes} (hi : Invariant plan s)
    (hsound : plan.Sound) (hqueue : s.queue = .hashMismatch name i size digest :: rest)
    (h : ({ s with queue := rest } : State).mendHash name i size digest = .ok s') :
    Invariant plan s' := by
  have hfirst : .hashMismatch name i size digest ∈ s.queue := Invariant.mem_of_first hqueue
  obtain ⟨i, m, rfl, rfl, rfl, hmeasured⟩ := hi.mismatches hfirst
  obtain ⟨record, d, hd, hedited, -, hrequeue⟩ := State.mendHash_eq_ok h
  have hstep : Replaced s s' (.hashMismatch name i m.size m.digest) rest name record i (.hash d)
      (.hash { d with imageSize := m.size, digest := m.digest }) :=
    { queue := hqueue
      kind := by simp
      edited := hedited.unpop
      requeue := hrequeue
      before := hd
      frame := rfl }
  exact hstep.invariant hi hsound (hstep.hashesDue_of_hash hi hsound hmeasured)
    hstep.sameDueKeys_of_hash

/-- To mend a chain descriptor preserves the invariant. -/
theorem mendChain {i : Int} {key : Option PublicKey} (hi : Invariant plan s)
    (hsound : plan.Sound) (hqueue : s.queue = .publicKeyMismatch name i key :: rest)
    (h : ({ s with queue := rest } : State).mendChain name i key = .ok s') :
    Invariant plan s' := by
  have hfirst : .publicKeyMismatch name i key ∈ s.queue := Invariant.mem_of_first hqueue
  obtain ⟨i, named, k, rfl, hnamed, rfl, -⟩ := hi.staleKeys hfirst
  obtain ⟨record, d, hd, hedited, -, hrequeue⟩ := State.mendChain_eq_ok h
  have hstep : Replaced s s' (.publicKeyMismatch name i (some k)) rest name record i (.chain d)
      (.chain { d with publicKey := some k }) :=
    { queue := hqueue
      kind := by simp
      edited := hedited.unpop
      requeue := hrequeue
      before := hd
      frame := rfl }
  exact hstep.invariant hi hsound (hstep.hashesDue_of_chain hi) hstep.sameDueKeys_of_chain

end Invariant

end Repair

end VerifiedBoot
