import VerifiedBoot.Proofs.Repair.Plan

/-!
# The invariant of a repair

Whatever is still amiss in a repair in progress has an issue in the queue that mends it. The parts
of `Repair.Invariant` say so for hashes, for the keys of chain descriptors and for signatures, and
they say that the issues in the queue are right. The one exception is a chain descriptor of its own
partition, which keeps its key when the image gets a new one.

`State.Edited` is what a step does to the images; what it leaves alone is carried over here, once
for all steps.
-/

namespace VerifiedBoot

namespace Repair

/-- The part of the invariant that does not speak of the queue: what a repair leaves alone. -/
structure Kept (plan : Plan) (s : State) : Prop where
  record : ∀ {name record}, s.records.lookup name = some record → ∃ first,
    plan.original name = some first ∧ record.footer = first.footer ∧
    record.image.authentication = first.image.authentication ∧
    record.image.SameFrame first.image ∧ (s.changed.lookup name = none → record = first)
  present : ∀ {name first}, plan.original name = some first →
    ∃ record, s.records.lookup name = some record
  nodup : (s.changed.map (·.1)).Nodup
  references : s.references = plan.references

/-- A pair that is settled signs for good. -/
def Settled (s : State) : Prop :=
  ∀ {name pair}, s.signer name = some pair → .invalidSignature name ∉ s.queue ∧
    ∀ record, s.records.lookup name = some record → record.image.publicKey = some pair.publicKey

/-- A hash that does not say what was measured has an issue. -/
def HashesDue (plan : Plan) (s : State) : Prop :=
  ∀ {p i m}, plan.measured p i m → .hashMismatch p i m.size m.digest ∈ s.queue ∨
    ∃ record d, s.records.lookup p = some record ∧
      record.image.descriptors[i]? = some (.hash d) ∧ d.imageSize = m.size ∧ d.digest = m.digest

/-- The issues about hashes say what was measured. -/
def MismatchesMeasured (plan : Plan) (s : State) : Prop :=
  ∀ {p} {index size : Int} {digest}, .hashMismatch p index size digest ∈ s.queue →
    ∃ (i : Nat) (m : Measurement), index = i ∧ size = m.size ∧ digest = m.digest ∧
      plan.measured p i m

/-- A chain descriptor of another partition will have the key of the image, once this has one. -/
def KeysDue (plan : Plan) (s : State) : Prop :=
  ∀ {p i t}, plan.chained p i t → p ≠ t → ∀ {holder d target}, s.records.lookup p = some holder →
    holder.image.descriptors[i]? = some (.chain d) → s.records.lookup t = some target →
    dueKey p i d.publicKey s.queue = target.image.publicKey ∨ target.image.publicKey = none

/-- The key that a chain descriptor of its own partition has in the end: the one that the image
embedded at the start, or the one that the descriptor had if the image embedded none. -/
def ownKey (first : Record) (d : ChainDescriptor) : Option PublicKey :=
  first.image.publicKey.or d.publicKey

/-- A chain descriptor of its own partition does not follow a new key of the image. -/
def OwnKeysDue (plan : Plan) (s : State) : Prop :=
  ∀ {p i}, plan.chained p i p → ∀ {holder d}, s.records.lookup p = some holder →
    holder.image.descriptors[i]? = some (.chain d) → ∃ first e, plan.original p = some first ∧
      first.image.descriptors[i]? = some (.chain e) ∧
      dueKey p i d.publicKey s.queue = ownKey first e

/-- The issues about keys of chain descriptors have the key that the image embeds, as long as no
pair is settled for it. -/
def StaleKeysEmbedded (plan : Plan) (s : State) : Prop :=
  ∀ {p} {index : Int} {key}, .publicKeyMismatch p index key ∈ s.queue →
    ∃ (i : Nat) (t : String) (k : PublicKey), index = i ∧ plan.chained p i t ∧ key = some k ∧
      k.InRange ∧ (s.signer t = none → ∀ target, s.records.lookup t = some target →
        target.image.publicKey = key)

/-- An image that has to verify has a pair, or an issue, or it is as it was and verifies. -/
def SignaturesDue (plan : Plan) (s : State) : Prop :=
  ∀ {name record}, plan.trusted name → s.records.lookup name = some record →
    (record.image.publicKey.isSome ∨ ∃ p i, plan.chained p i name) →
    (s.signer name).isSome ∨ .invalidSignature name ∈ s.queue ∨
      (s.changed.lookup name = none ∧ record.image.signatureValid = true)

/-- The invariant of a repair. -/
structure Invariant (plan : Plan) (s : State) : Prop extends Kept plan s where
  signer : Settled s
  queue : s.queue.Nodup
  hashes : HashesDue plan s
  mismatches : MismatchesMeasured plan s
  keys : KeysDue plan s
  ownKeys : OwnKeysDue plan s
  staleKeys : StaleKeysEmbedded plan s
  signatures : SignaturesDue plan s

variable {plan : Plan} {s s' : State} {name : String} {record : Record}
  {image : Image} {pair : Option KeyPair}

namespace State.Edited

/-- The pair that was settled. -/
theorem signer_self (h : Edited s s' name record image pair) : s'.signer name = pair := by
  rw [signer, h.changed, Entries.lookup_assign_self]
  rfl

theorem signer_of_ne (h : Edited s s' name record image pair) {other : String}
    (hother : other ≠ name) : s'.signer other = s.signer other := by
  rw [signer, h.changed, Entries.lookup_assign_of_ne hother]
  rfl

/-- What a record was before the step. -/
theorem lookup (h : Edited s s' name record image pair) {other : String} {found : Record}
    (hfound : s'.records.lookup other = some found) :
    (other = name ∧ found = { record with image }) ∨
      (other ≠ name ∧ s.records.lookup other = some found) := by
  by_cases hother : other = name
  · subst hother
    exact .inl ⟨rfl, Option.some.inj (hfound.symm.trans h.after)⟩
  · rw [h.others other hother] at hfound
    exact .inr ⟨hother, hfound⟩

section Replaced

variable {i : Nat} {d' : Descriptor}

/-- A descriptor that is not the one that was replaced is still there. -/
theorem getElem?_of_ne (h : Edited s s' name record
      { record.image with descriptors := record.image.descriptors.set i d' } pair)
    {p : String} {j : Nat} (hne : ¬(p = name ∧ j = i)) {x : Descriptor} {old : Record}
    (hold : s.records.lookup p = some old) (hx : old.image.descriptors[j]? = some x) :
    ∃ new, s'.records.lookup p = some new ∧ new.image.descriptors[j]? = some x := by
  by_cases hp : p = name
  · subst hp
    obtain rfl := Option.some.inj (hold.symm.trans h.before)
    refine ⟨_, h.after, ?_⟩
    rw [List.getElem?_set_ne fun hij => hne ⟨rfl, hij.symm⟩]
    exact hx
  · exact ⟨old, (h.others p hp).trans hold, hx⟩

/-- A descriptor that is not the one that was replaced was there before. -/
theorem getElem?_before (h : Edited s s' name record
      { record.image with descriptors := record.image.descriptors.set i d' } pair)
    {p : String} {j : Nat} (hne : ¬(p = name ∧ j = i)) {x : Descriptor} {new : Record}
    (hnew : s'.records.lookup p = some new) (hx : new.image.descriptors[j]? = some x) :
    ∃ old, s.records.lookup p = some old ∧ old.image.descriptors[j]? = some x := by
  rcases h.lookup hnew with ⟨rfl, rfl⟩ | ⟨-, hold⟩
  · rw [List.getElem?_set_ne fun hij => hne ⟨rfl, hij.symm⟩] at hx
    exact ⟨record, h.before, hx⟩
  · exact ⟨new, hold, hx⟩

/-- The descriptor that was replaced is the new one. -/
theorem getElem?_self (h : Edited s s' name record
      { record.image with descriptors := record.image.descriptors.set i d' } pair)
    {d : Descriptor} (hd : record.image.descriptors[i]? = some d) {new : Record}
    (hnew : s'.records.lookup name = some new) : new.image.descriptors[i]? = some d' := by
  obtain rfl := Option.some.inj (h.after.symm.trans hnew)
  exact List.getElem?_set_self (List.getElem?_eq_some_iff.1 hd).1

end Replaced

theorem unpop {rest : List Issue} (h : Edited { s with queue := rest } s' name record image pair) :
    Edited s s' name record image pair :=
  ⟨h.before, h.after, h.others, h.changed, h.references⟩

/-- A step keeps what a repair leaves alone if its image does. -/
theorem kept (h : Edited s s' name record image pair) (hs : Kept plan s)
    (hauthentication : image.authentication = record.image.authentication)
    (hframe : image.SameFrame record.image) : Kept plan s' where
  record {other found} hfound := by
    rcases h.lookup hfound with ⟨rfl, rfl⟩ | ⟨hother, hfound⟩
    · obtain ⟨first, hfirst, hfooter, hauth, hsame, -⟩ := hs.record h.before
      refine ⟨first, hfirst, hfooter, hauthentication.trans hauth, hframe.trans hsame, ?_⟩
      rw [h.changed, Entries.lookup_assign_self]
      exact nofun
    · rw [h.changed, Entries.lookup_assign_of_ne hother]
      exact hs.record hfound
  present {other first} hfirst := by
    by_cases hother : other = name
    · subst hother
      exact ⟨_, h.after⟩
    · rw [h.others other hother]
      exact hs.present hfirst
  nodup := by
    rw [h.changed]
    exact Entries.nodup_keys_assign hs.nodup
  references := h.references.trans hs.references

end State.Edited

namespace State

/-- Whether every chain descriptor of a state is one of an earlier state and is due the same
key. -/
def SameDueKeys (s s' : State) : Prop :=
  ∀ {p i holder} {d : ChainDescriptor}, s'.records.lookup p = some holder →
    holder.image.descriptors[i]? = some (.chain d) → ∃ old e, s.records.lookup p = some old ∧
      old.image.descriptors[i]? = some (.chain e) ∧
      dueKey p i e.publicKey s.queue = dueKey p i d.publicKey s'.queue

/-- What waits after a signature was put into question. -/
theorem mem_requeue {issue : Issue} : issue ∈ s.requeue name record ↔ issue ∈ s.queue ∨
    (issue = .invalidSignature name ∧ s.signer name = none ∧ record.image.publicKey.isSome) := by
  unfold requeue
  split
  · next h =>
    rw [Findings.mem_noteIn]
    exact or_congr_right ⟨fun heq => ⟨heq, h⟩, fun hboth => hboth.1⟩
  · next h => exact ⟨.inl, fun hmem => hmem.resolve_right fun hboth => h hboth.2⟩

theorem nodup_requeue (h : s.queue.Nodup) : (s.requeue name record).Nodup := by
  unfold requeue
  split
  · exact Findings.nodup_noteIn h _
  · exact h

/-- To put a signature into question does not count for the keys of chain descriptors. -/
theorem dueKey_requeue (p : String) (i : Nat) (key : Option PublicKey) :
    dueKey p i key (s.requeue name record) = dueKey p i key s.queue := by
  unfold requeue
  split
  · exact @dueKey_foldl_noteIn_of_apart p i key s.queue [.invalidSignature name] (by simp [Apart])
  · rfl

end State

namespace Invariant

variable {issue : Issue} {rest : List Issue}

theorem mem_of_first (hqueue : s.queue = issue :: rest) : issue ∈ s.queue := by
  rw [hqueue]
  exact List.mem_cons_self

/-- The first issue does not wait again, and nothing waits twice behind it. -/
theorem nodup_of_queue (h : s.queue.Nodup) (hqueue : s.queue = issue :: rest) :
    issue ∉ rest ∧ rest.Nodup := by
  rw [hqueue, List.nodup_cons] at h
  exact h

theorem mem_of_rest (hqueue : s.queue = issue :: rest) {other : Issue} (h : other ∈ rest) :
    other ∈ s.queue := by
  rw [hqueue]
  exact List.mem_cons_of_mem issue h

end Invariant

end Repair

end VerifiedBoot
