import VerifiedBoot.Proofs.Repair.Closure

/-!
# A repair under way

Whatever was changed, or is about to be changed because an issue about it waits, is affected; and
whatever is affected because of what was done so far was changed, or has an issue that waits.
`Repair.Underway` is the invariant that says so, beside what it takes for a step to succeed. `Step`
is what all steps have in common, and a step preserves the invariant.
-/

namespace VerifiedBoot

namespace Repair

/-- Whether a partition was changed, or an issue about it waits. -/
def State.TakenUp (s : State) (name : String) : Prop :=
  (s.changed.lookup name).isSome ∨ ∃ issue ∈ s.queue, issue.partition? = some name

/-- What a repair finds where a verification left it: the records with their frames, and the images
without a pair as they were but for their descriptors. -/
structure Intact (found : Verification) (s : State) : Prop where
  record : ∀ {name record}, s.records.lookup name = some record → ∃ first,
    found.records.lookup name = some first ∧ record.image.SameFrame first.image ∧
    (s.signer name = none → record.image.header = first.image.header ∧
      record.image.publicKey = first.image.publicKey)
  present : ∀ {name first}, found.records.lookup name = some first →
    ∃ record, s.records.lookup name = some record
  declared : ∀ {name record d key}, s.records.lookup name = some record →
    .chain d ∈ record.image.descriptors → d.publicKey = some key → key.Standard
  references : s.references = found.references

/-- The invariant of a repair under way. -/
structure Underway (means : Means) (found : Verification) (s : State) : Prop
    extends Intact found s where
  generated : ∀ e ∈ s.generated, means.generate e.1 = .ok e.2
  nodup : (s.changed.map (·.1)).Nodup
  queue : s.queue.Nodup
  mendable : ∀ issue ∈ s.queue, Mendable found issue
  /-- Only what is affected is changed, or waits to be. -/
  changed : ∀ name, (s.changed.lookup name).isSome → Affected means found name
  waiting : ∀ issue ∈ s.queue, ∀ name, issue.partition? = some name → Affected means found name
  /-- An image whose signature is an issue has no pair yet. -/
  unsettled : ∀ name, .invalidSignature name ∈ s.queue → s.signer name = none
  /-- What issues name is taken up. -/
  issues : ∀ issue ∈ found.issues, ∀ name, issue.partition? = some name → s.TakenUp name
  signatures : ∀ name, .invalidSignature name ∈ found.issues →
    .invalidSignature name ∈ s.queue ∨ (s.signer name).isSome
  /-- The signature of a changed image that embeds a key is an issue until there is a pair. -/
  unsigned : ∀ {name first}, (s.changed.lookup name).isSome → s.signer name = none →
    found.records.lookup name = some first → first.image.publicKey.isSome →
    .invalidSignature name ∈ s.queue
  /-- With a new key, those who have a chain descriptor of the image are taken up, and there is
  one. -/
  holders : ∀ {name}, (s.signer name).isSome → NeedsKey means found name →
    Chained found name ∧ ∀ p, p ≠ name → Chains found p name → s.TakenUp p

variable {means : Means} {found : Verification} {s s' : State} {issue : Issue} {rest : List Issue}
  {name : String} {record : Record} {image : Image} {pair : Option KeyPair}

/-- What all steps have in common: the first issue is taken from the queue, the image that it is
about is changed, and new issues are about what is affected by that. -/
structure Step (means : Means) (found : Verification) (s s' : State) (issue : Issue)
    (rest : List Issue) (name : String) (record : Record) (image : Image) (pair : Option KeyPair) :
    Prop where
  queue : s.queue = issue :: rest
  partition : issue.partition? = some name
  edited : State.Edited s s' name record image pair
  /-- A pair is settled by mending the signature, and by nothing else. -/
  kind : (pair = s.signer name ∧ ∀ n, issue ≠ .invalidSignature n) ∨
    (issue = .invalidSignature name ∧ pair.isSome)
  frame : image.SameFrame record.image
  declared : ∀ {d key}, .chain d ∈ image.descriptors → d.publicKey = some key → key.Standard
  generated : ∀ e ∈ s'.generated, means.generate e.1 = .ok e.2
  nodup : s'.queue.Nodup
  stays : ∀ other ∈ rest, other ∈ s'.queue
  added : ∀ other ∈ s'.queue, other ∈ rest ∨ (Mendable found other ∧
    (∀ n, other.partition? = some n → Affected means found n) ∧
    ∀ n, other = .invalidSignature n → n = name ∧ pair = none)
  unsigned : pair = none → image.header = record.image.header ∧
    image.publicKey = record.image.publicKey ∧
    (record.image.publicKey.isSome → .invalidSignature name ∈ s'.queue)
  holders : s.signer name = none → pair.isSome → NeedsKey means found name →
    Chained found name ∧ ∀ p, p ≠ name → Chains found p name → s'.TakenUp p

namespace Step

/-- What was taken up stays so. -/
theorem takenUp (h : Step means found s s' issue rest name record image pair) {n : String}
    (hn : s.TakenUp n) : s'.TakenUp n := by
  have hself : (s'.changed.lookup name).isSome := by
    rw [h.edited.changed, Entries.lookup_assign_self]
    rfl
  rcases hn with hchanged | ⟨other, hother, hpartition⟩
  · by_cases hname : n = name
    · exact .inl (hname ▸ hself)
    · refine .inl ?_
      rw [h.edited.changed, Entries.lookup_assign_of_ne hname]
      exact hchanged
  · rw [h.queue] at hother
    rcases List.mem_cons.1 hother with rfl | hrest
    · obtain rfl := Option.some.inj (h.partition.symm.trans hpartition)
      exact .inl hself
    · exact .inr ⟨other, h.stays other hrest, hpartition⟩

/-- A pair that is settled stays settled. -/
theorem signer_isSome (h : Step means found s s' issue rest name record image pair) {n : String}
    (hn : (s.signer n).isSome) : (s'.signer n).isSome := by
  by_cases hname : n = name
  · subst hname
    rw [h.edited.signer_self]
    rcases h.kind with ⟨rfl, -⟩ | ⟨-, hsome⟩
    · exact hn
    · exact hsome
  · rw [h.edited.signer_of_ne hname]
    exact hn

/-- What was not settled after the step was not settled before. -/
theorem signer_eq_none (h : Step means found s s' issue rest name record image pair) {n : String}
    (hn : s'.signer n = none) : s.signer n = none := by
  rw [← Option.not_isSome_iff_eq_none] at hn ⊢
  exact fun hsome => hn (h.signer_isSome hsome)

theorem intact (h : Step means found s s' issue rest name record image pair)
    (hi : Intact found s) : Intact found s' where
  record {n r} hr := by
    rcases h.edited.lookup hr with ⟨rfl, rfl⟩ | ⟨hname, hr⟩
    · obtain ⟨first, hfirst, hframe, hsame⟩ := hi.record h.edited.before
      refine ⟨first, hfirst, h.frame.trans hframe, fun hnone => ?_⟩
      -- Without a pair the step has left header and key alone, and so had all steps before.
      obtain ⟨hheader, hkey⟩ := hsame (h.signer_eq_none hnone)
      rw [h.edited.signer_self] at hnone
      obtain ⟨hheader', hkey', -⟩ := h.unsigned hnone
      exact ⟨hheader'.trans hheader, hkey'.trans hkey⟩
    · rw [h.edited.signer_of_ne hname]
      exact hi.record hr
  present {n first} hfirst := by
    by_cases hname : n = name
    · exact ⟨_, hname ▸ h.edited.after⟩
    · rw [h.edited.others n hname]
      exact hi.present hfirst
  declared {n r d key} hr hd hkey := by
    rcases h.edited.lookup hr with ⟨rfl, rfl⟩ | ⟨-, hr⟩
    · exact h.declared hd hkey
    · exact hi.declared hr hd hkey
  references := h.edited.references.trans hi.references

/-- **The step lemma of a repair under way.** -/
theorem underway (h : Step means found s s' issue rest name record image pair)
    (hi : Underway means found s) : Underway means found s' where
  toIntact := h.intact hi.toIntact
  generated := h.generated
  nodup := by
    rw [h.edited.changed]
    exact Entries.nodup_keys_assign hi.nodup
  queue := h.nodup
  mendable other hother := by
    rcases h.added other hother with hrest | ⟨hmendable, -⟩
    · exact hi.mendable other (Invariant.mem_of_rest h.queue hrest)
    · exact hmendable
  changed n hn := by
    by_cases hname : n = name
    · subst hname
      exact hi.waiting issue (Invariant.mem_of_first h.queue) n h.partition
    · rw [h.edited.changed, Entries.lookup_assign_of_ne hname] at hn
      exact hi.changed n hn
  waiting other hother n hn := by
    rcases h.added other hother with hrest | ⟨-, haffected, -⟩
    · exact hi.waiting other (Invariant.mem_of_rest h.queue hrest) n hn
    · exact haffected n hn
  unsettled n hn := by
    rcases h.added _ hn with hrest | ⟨-, -, hself⟩
    · have hnone := hi.unsettled n (Invariant.mem_of_rest h.queue hrest)
      by_cases hname : n = name
      · subst hname
        rw [h.edited.signer_self]
        rcases h.kind with ⟨rfl, -⟩ | ⟨rfl, -⟩
        · exact hnone
        · -- The issue waits only once.
          have hnodup := Invariant.nodup_of_queue hi.queue h.queue
          exact absurd hrest hnodup.1
      · rw [h.edited.signer_of_ne hname]
        exact hnone
    · obtain ⟨rfl, hnone⟩ := hself n rfl
      rw [h.edited.signer_self]
      exact hnone
  issues other hother n hn := h.takenUp (hi.issues other hother n hn)
  signatures n hn := by
    rcases hi.signatures n hn with hqueue | hsome
    · rw [h.queue] at hqueue
      rcases List.mem_cons.1 hqueue with rfl | hrest
      · obtain rfl : n = name := Option.some.inj h.partition
        rcases h.kind with ⟨-, hkind⟩ | ⟨-, hsome⟩
        · exact absurd rfl (hkind n)
        · rw [h.edited.signer_self]
          exact .inr hsome
      · exact .inl (h.stays _ hrest)
    · exact .inr (h.signer_isSome hsome)
  unsigned {n first} hn hnone hfirst hkey := by
    by_cases hname : n = name
    · subst hname
      obtain ⟨first', hfirst', -, hsame⟩ := hi.record h.edited.before
      obtain rfl := Option.some.inj (hfirst.symm.trans hfirst')
      obtain ⟨-, hpublic⟩ := hsame (h.signer_eq_none hnone)
      rw [h.edited.signer_self] at hnone
      exact (h.unsigned hnone).2.2 (hpublic ▸ hkey)
    · rw [h.edited.changed, Entries.lookup_assign_of_ne hname] at hn
      have hqueue := hi.unsigned hn (h.signer_eq_none hnone) hfirst hkey
      rw [h.queue] at hqueue
      rcases List.mem_cons.1 hqueue with rfl | hrest
      · exact absurd (Option.some.inj h.partition) hname
      · exact h.stays _ hrest
  holders {n} hn hneeds := by
    by_cases hbefore : (s.signer n).isSome
    · obtain ⟨hexists, htaken⟩ := hi.holders hbefore hneeds
      exact ⟨hexists, fun p hp hchains => h.takenUp (htaken p hp hchains)⟩
    · by_cases hname : n = name
      · subst hname
        rw [h.edited.signer_self] at hn
        exact h.holders (Option.not_isSome_iff_eq_none.1 hbefore) hn hneeds
      · rw [h.edited.signer_of_ne hname] at hn
        exact absurd hn hbefore

end Step

end Repair

end VerifiedBoot
