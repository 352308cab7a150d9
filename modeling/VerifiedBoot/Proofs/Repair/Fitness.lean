import VerifiedBoot.Proofs.Repair.Handled

/-!
# Images in range and reliable pairs

A repair that starts from images that fit their fields ends with such images, as long as what was
measured fits as well, and a repair that is given reliable pairs signs with reliable pairs. Neither
is part of the invariant of a repair, which needs no such assumption.
-/

namespace VerifiedBoot

namespace Repair

/-- Whether the images of a repair in progress fit their fields. -/
def ImagesInRange (s : State) : Prop :=
  ∀ name record, s.records.lookup name = some record → record.image.InRange

/-- Whether the pairs of a repair in progress are reliable, those that sign and those that were
generated. -/
structure ReliablePairs (suite : Suite) (s : State) : Prop where
  signer : ∀ {name pair}, s.signer name = some pair → pair.Reliable suite
  generated : ∀ e ∈ s.generated, e.2.Reliable suite

variable {plan : Plan} {suite : Suite} {means : Means} {s s' : State} {name : String}
  {record : Record} {image : Image} {issue : Issue} {rest : List Issue}

/-- Images stay in range in a step whose image is. -/
theorem State.Edited.imagesInRange {pair : Option KeyPair}
    (h : Edited s s' name record image pair) (hs : ImagesInRange s) (hrange : image.InRange) :
    ImagesInRange s' := by
  intro other found hfound
  rcases h.lookup hfound with ⟨rfl, rfl⟩ | ⟨-, hfound⟩
  · exact hrange
  · exact hs other found hfound

/-- Pairs stay reliable in a step that settles one that is, and generates only such. -/
theorem State.Edited.reliablePairs {pair : Option KeyPair}
    (h : Edited s s' name record image pair) (hs : ReliablePairs suite s)
    (hpair : ∀ p, pair = some p → p.Reliable suite)
    (hgenerated : ∀ e ∈ s'.generated, e.2.Reliable suite) : ReliablePairs suite s' where
  signer {other p} hp := by
    by_cases hother : other = name
    · rw [hother, h.signer_self] at hp
      exact hpair p hp
    · rw [h.signer_of_ne hother] at hp
      exact hs.signer hp
  generated := hgenerated

/-- An image stays in range if one of its descriptors is replaced by one in range. -/
theorem inRange_set {i : Nat} {d : Descriptor} (h : image.InRange) (hd : d.InRange) :
    ({ image with descriptors := image.descriptors.set i d } : Image).InRange := by
  refine ⟨h.header, fun x hx => ?_, h.metadata⟩
  rcases List.mem_or_eq_of_mem_set hx with hx | rfl
  · exact h.descriptors x hx
  · exact hd

/-- An image stays in range if it gets another algorithm, whatever its key. -/
theorem inRange_resized {bits : Nat} {header : Header} {key : Option PublicKey} (h : image.InRange)
    (hresized : Header.Resized image.header bits header) :
    ({ image with header, publicKey := key } : Image).InRange := by
  obtain ⟨algorithm, -, rfl⟩ := hresized
  have hshaped := h.header
  exact ⟨⟨hshaped.magic, hshaped.releaseString, hshaped.reserved⟩, h.descriptors, h.metadata⟩

/-- Images stay in range in a step, if what was measured fits its fields. -/
theorem ImagesInRange.handle (hr : ImagesInRange s) (hi : Invariant plan s)
    (hbounded : plan.Bounded) (hqueue : s.queue = issue :: rest)
    (h : ({ s with queue := rest } : State).handle means issue = .ok s') : ImagesInRange s' := by
  have hfirst : issue ∈ s.queue := Invariant.mem_of_first hqueue
  cases handled_of_handle h with
  | @hash name index size digest record i d _ hd hedited =>
    -- What an issue gives to a descriptor comes from the verification: it was measured, or it is
    -- the key of an image that was read.
    obtain ⟨_, m, -, rfl, rfl, hmeasured⟩ := hi.mismatches hfirst
    have hrecord := hr _ _ hedited.unpop.before
    have hold : d.InRange := hrecord.descriptors _ (List.mem_of_getElem? hd)
    refine hedited.unpop.imagesInRange hr (inRange_set hrecord ?_)
    exact { hold with
      imageSize := hbounded.measured_size hmeasured
      digest := hbounded.measured_digest hmeasured }
  | @chain name index key record i d _ hd hedited =>
    obtain ⟨_, _, k, -, -, rfl, hk, -⟩ := hi.staleKeys hfirst
    have hrecord := hr _ _ hedited.unpop.before
    have hold : d.InRange := hrecord.descriptors _ (List.mem_of_getElem? hd)
    refine hedited.unpop.imagesInRange hr (inRange_set hrecord ?_)
    refine { hold with publicKey := fun key heq => ?_ }
    rw [← Option.some.inj heq]
    exact hk
  | sign _ hedited hadjusted =>
    have hrecord := hr _ _ hedited.unpop.before
    exact hedited.unpop.imagesInRange hr (inRange_resized hrecord hadjusted.resized)
  | rekey _ _ _ hedited hadjusted =>
    have hrecord := hr _ _ hedited.unpop.before
    exact hedited.unpop.imagesInRange hr (inRange_resized hrecord hadjusted.resized)

/-- Images stay in range until the queue is worked off. -/
theorem ImagesInRange.drain {limit : Nat} (hr : ImagesInRange s) (hi : Invariant plan s)
    (hsound : plan.Sound) (hbounded : plan.Bounded) (h : s.drain means limit = .ok s') :
    ImagesInRange s' := by
  -- The invariant goes along, since the issues in the queue are to be right.
  have hboth := @State.drain_preserves s s' means (fun s => Invariant plan s ∧ ImagesInRange s)
    (fun hs hqueue hhandle => ⟨hs.1.handle hsound hqueue hhandle,
      hs.2.handle hs.1 hbounded hqueue hhandle⟩) limit ⟨hi, hr⟩ h
  exact hboth.1.2

/-- Pairs stay reliable in a step, if those at hand and those that are generated are. -/
theorem ReliablePairs.handle (hs : ReliablePairs suite s)
    (hring : ∀ pair ∈ means.keyring, pair.Reliable suite)
    (hfresh : ∀ bits pair, means.generate bits = .ok pair → pair.Reliable suite)
    (h : s.handle means issue = .ok s') : ReliablePairs suite s' := by
  cases handled_of_handle h with
  | hash _ _ hedited hgenerated _ | chain _ _ hedited hgenerated _ =>
    exact hedited.reliablePairs hs (fun p => hs.signer) (hgenerated ▸ hs.generated)
  | sign hfind hedited _ hgenerated _ =>
    refine hedited.reliablePairs hs (fun p hp => ?_) (hgenerated ▸ hs.generated)
    obtain rfl := Option.some.inj hp
    rcases (State.findPair_eq_some hfind).2 with hmem | hmem
    · exact hring _ hmem
    · exact hs.generated _ hmem
  | rekey _ _ _ hedited _ hfreshBits hgenerated _ =>
    have hall : ∀ e ∈ s'.generated, e.2.Reliable suite := by
      intro e he
      rcases hgenerated e he with he | hmade
      · exact hs.generated e he
      · exact hfresh e.1 e.2 hmade
    -- The new pair is among those that were generated, whether in this step or before.
    obtain ⟨_, _, -, hmem⟩ := hfreshBits
    refine hedited.reliablePairs hs (fun p hp => ?_) hall
    obtain rfl := Option.some.inj hp
    exact hall _ hmem

/-- Pairs stay reliable until the queue is worked off. -/
theorem ReliablePairs.drain {limit : Nat} (hs : ReliablePairs suite s)
    (hring : ∀ pair ∈ means.keyring, pair.Reliable suite)
    (hfresh : ∀ bits pair, means.generate bits = .ok pair → pair.Reliable suite)
    (h : s.drain means limit = .ok s') : ReliablePairs suite s' := by
  have hstep {s s' : State} {issue : Issue} {rest : List Issue} (hs : ReliablePairs suite s)
      (_ : s.queue = issue :: rest)
      (hhandle : ({ s with queue := rest } : State).handle means issue = .ok s') :
      ReliablePairs suite s' := by
    have hpopped : ReliablePairs suite { s with queue := rest } := ⟨hs.signer, hs.generated⟩
    exact hpopped.handle hring hfresh hhandle
  exact (State.drain_preserves hstep hs h).1

end Repair

end VerifiedBoot
