import VerifiedBoot.Proofs.Repair.Underway

/-!
# Operations that succeed

What a verification left behind is enough for every operation of a repair to succeed: there is a
record with the descriptor that an issue is about, an image has an algorithm for every key that it
can get, and new pairs can be made. Only a new key takes more, a chain descriptor of the image in
another partition.
-/

namespace VerifiedBoot

namespace Repair

variable {means : Means} {found : Verification} {s : State} {name : String} {record : Record}
  {i : Nat} {d : Descriptor}

namespace State

/-- An image that was read can be touched. -/
theorem exists_touch (h : s.records.lookup name = some record) : ∃ s', s.touch name = .ok s' := by
  unfold touch
  rw [record_eq_ok.2 h]
  simp only [bind, Except.bind]
  split
  · exact ⟨_, rfl⟩
  · exact ⟨_, rfl⟩

/-- A descriptor that is there is found. -/
theorem descriptorOf_of_getElem? (h : s.records.lookup name = some record)
    (hd : record.image.descriptors[i]? = some d) :
    s.descriptorOf name i d.kind = .ok (record, d) := by
  have hlt : ¬(record.image.descriptors.length : Int) ≤ i := by
    have := (List.getElem?_eq_some_iff.1 hd).1
    omega
  refine Outcome.bind_eq_ok.2 ⟨record, record_eq_ok.2 h, Outcome.guard_eq_ok.2 ⟨hlt, ?_⟩⟩
  refine Outcome.bind_eq_ok.2 ⟨d, Image.descriptorAt_natCast.2 hd, ?_⟩
  exact Outcome.guard_eq_ok.2 ⟨not_not.2 rfl, rfl⟩

/-- An image that was replaced can be touched. -/
theorem exists_touch_setImage (s : State) (name : String) (record : Record) (image : Image) :
    ∃ s', (s.setImage name record image).touch name = .ok s' :=
  @exists_touch _ _ { record with image } (Entries.lookup_assign_self _ _ _)

/-- A hash that is there can be mended. -/
theorem exists_mendHash {d : HashDescriptor} (h : s.records.lookup name = some record)
    (hd : record.image.descriptors[i]? = some (.hash d)) (size : Int) (digest : Bytes) :
    ∃ s', s.mendHash name i size digest = .ok s' := by
  obtain ⟨s', hs'⟩ := exists_touch_setImage s name record
    (record.image.setDescriptor i (.hash { d with imageSize := size, digest }))
  exact ⟨s', Outcome.bind_eq_ok.2 ⟨_, descriptorOf_of_getElem? h hd, hs'⟩⟩

/-- A chain descriptor that is there can be mended. -/
theorem exists_mendChain {d : ChainDescriptor} (h : s.records.lookup name = some record)
    (hd : record.image.descriptors[i]? = some (.chain d)) (key : Option PublicKey) :
    ∃ s', s.mendChain name i key = .ok s' := by
  obtain ⟨s', hs'⟩ := exists_touch_setImage s name record
    (record.image.setDescriptor i (.chain { d with publicKey := key }))
  exact ⟨s', Outcome.bind_eq_ok.2 ⟨_, descriptorOf_of_getElem? h hd, hs'⟩⟩

/-- An image can be signed with a pair of a usual size. -/
theorem exists_signWith {pair : KeyPair} {algorithm : Algorithm}
    (h : s.records.lookup name = some record) (halgorithm : record.image.algorithm = .ok algorithm)
    (hstandard : pair.publicKey.Standard) : ∃ s', s.signWith name pair = .ok s' := by
  obtain ⟨size, hsize⟩ := hstandard
  obtain ⟨algorithm', halgorithm'⟩ := algorithm.exists_forKeyBits size
  rw [← hsize] at halgorithm'
  unfold signWith
  rw [record_eq_ok.2 h]
  simp only [bind, Except.bind, halgorithm]
  split
  · exact ⟨_, rfl⟩
  · change ∃ s', Except.bind (algorithm.forKeyBits pair.publicKey.bits) _ = .ok s'
    rw [halgorithm']
    exact ⟨_, rfl⟩

/-- What is behind a reference that counts from the start can be looked up. -/
theorem exists_chainAt {r : Reference} (hi : r.index = i) : ∃ d, s.chainAt r = .ok d := by
  unfold chainAt
  rw [hi]
  cases s.records.lookup r.holder with
  | none => exact ⟨none, rfl⟩
  | some record =>
    dsimp only
    split
    · exact ⟨none, rfl⟩
    · next hlt =>
      have hlt : i < record.image.descriptors.length := by omega
      obtain ⟨d, hd⟩ : ∃ d, record.image.descriptors[i]? = some d :=
        ⟨_, List.getElem?_eq_getElem hlt⟩
      rw [Image.descriptorAt_natCast.2 hd]
      cases d <;> exact ⟨_, rfl⟩

/-- The chain descriptors of a partition can be looked up. -/
theorem exists_chainReferences (h : ∀ r ∈ s.references, ∃ i : Nat, r.index = i) (name : String) :
    ∃ refs, s.chainReferences name = .ok refs := by
  obtain ⟨found, hfound⟩ : ∃ found, (s.references.filter fun r =>
      r.partition = name && r.holder ≠ name).mapM (fun r => do
        return (← s.chainAt r).map (r, ·)) = Except.ok (ε := Error) found := by
    refine Outcome.exists_mapM fun r hr => ?_
    obtain ⟨i, hi⟩ := h r (List.mem_filter.1 hr).1
    obtain ⟨d, hd⟩ := @exists_chainAt s i r hi
    exact ⟨_, Outcome.bind_eq_ok.2 ⟨d, hd, rfl⟩⟩
  exact ⟨_, Outcome.bind_eq_ok.2 ⟨found, hfound, rfl⟩⟩

/-- With a pair at hand the image is signed with it. -/
theorem mendSignature_of_some {pair : KeyPair} (h : s.records.lookup name = some record)
    (hfind : s.findPair means record.image.publicKey = some pair) :
    s.mendSignature means name = s.signWith name pair := by
  rw [mendSignature, record_eq_ok.2 h]
  simp only [bind, Except.bind, hfind]

theorem mendSignature_of_none (h : s.records.lookup name = some record)
    (hfind : s.findPair means record.image.publicKey = none) :
    s.mendSignature means name = s.rekey means name := by
  rw [mendSignature, record_eq_ok.2 h]
  simp only [bind, Except.bind, hfind]

/-- An image that was read can be requested, unless it embeds a key and there is no pair. -/
theorem exists_request {pair : Option KeyPair} (h : s.records.lookup name = some record)
    (hpair : pair = none → record.image.publicKey = none) :
    ∃ request, s.request name pair = .ok request := by
  refine ⟨_, Outcome.bind_eq_ok.2 ⟨record, record_eq_ok.2 h, Outcome.guard_eq_ok.2 ⟨?_, rfl⟩⟩⟩
  rw [Bool.and_eq_true, not_and, Option.isNone_iff_eq_none]
  intro hnone
  rw [hpair hnone]
  exact Bool.false_ne_true

section Drain

variable {issue : Issue} {rest : List Issue} {next : State} {limit : Nat}

theorem drain_of_nil (h : s.queue = []) : s.drain means limit = .ok s := by
  unfold drain
  rw [h]

variable (hqueue : s.queue = issue :: rest)
include hqueue

/-- An issue that cannot be mended ends a repair. -/
theorem drain_of_error {e : Error}
    (h : ({ s with queue := rest } : State).handle means issue = .error e) :
    s.drain means limit = .error e := by
  unfold drain
  rw [hqueue]
  simp only [h]

/-- The first issue past the limit ends a repair. -/
theorem drain_zero_of_handle
    (h : ({ s with queue := rest } : State).handle means issue = .ok next) :
    s.drain means 0 = .error (.unrepairable .tooManySteps) := by
  unfold drain
  rw [hqueue]
  simp only [h]

/-- After an issue was mended the rest is worked off. -/
theorem drain_succ_of_handle
    (h : ({ s with queue := rest } : State).handle means issue = .ok next) :
    s.drain means (limit + 1) = next.drain means limit := by
  conv_lhs => unfold drain
  rw [hqueue]
  simp only [h]

end Drain

end State

/-! ### Keys -/

/-- The size of a new key is one that images can be signed with. -/
theorem Intact.standard_freshBits (hi : Intact found s) {r : Reference} {declared : ChainDescriptor}
    (hindex : r.index = i) (hat : s.chainAt r = .ok (some declared)) :
    ∃ size : KeySize, State.freshBits declared = size.bits := by
  obtain ⟨record, hrecord, hd⟩ := (State.chainAt_eq_ok hindex).1 hat
  unfold State.freshBits
  cases hkey : declared.publicKey with
  | none => exact ⟨.rsa2048, rfl⟩
  | some key => exact hi.declared hrecord (List.mem_of_getElem? hd) hkey

section Pairs

variable (hg : Grounded means found)
include hg

/-- A pair that was generated for one of the sizes has the size, and no image embedded its key. -/
theorem Grounded.of_generate {size : KeySize} {pair : KeyPair}
    (h : means.generate size.bits = .ok pair) : pair.publicKey.Standard ∧
      ∀ {name first}, found.records.lookup name = some first →
        first.image.publicKey ≠ some pair.publicKey := by
  obtain ⟨pair', hpair', hbits, hnew⟩ := hg.fresh size
  obtain rfl := Outcome.ok_unique h hpair'
  exact ⟨⟨size, hbits⟩, hnew⟩

/-- A new pair is at hand for each of the sizes. -/
theorem Grounded.exists_generatedPair (hgenerated : ∀ e ∈ s.generated, means.generate e.1 = .ok e.2)
    (size : KeySize) : ∃ pair s', s.generatedPair means size.bits = .ok (pair, s') ∧
      pair.publicKey.Standard := by
  unfold State.generatedPair
  cases hlookup : s.generated.lookup size.bits with
  | some pair =>
    obtain ⟨before, after, hlist, -⟩ := List.lookup_eq_some_iff.1 hlookup
    have hmade : means.generate size.bits = .ok pair :=
      hgenerated (size.bits, pair) (hlist ▸ List.mem_append_right _ List.mem_cons_self)
    exact ⟨pair, s, rfl, (hg.of_generate hmade).1⟩
  | none =>
    obtain ⟨pair, hpair, hbits, -⟩ := hg.fresh size
    exact ⟨pair, _, Outcome.bind_eq_ok.2 ⟨pair, hpair, rfl⟩, ⟨size, hbits⟩⟩

/-- No pair is at hand for the key of an image that needs a new one. -/
theorem Grounded.findPair_eq_none (hgenerated : ∀ e ∈ s.generated, means.generate e.1 = .ok e.2)
    {first : Record} (hfirst : found.records.lookup name = some first)
    (hneeds : NeedsKey means found name) : s.findPair means first.image.publicKey = none := by
  obtain ⟨first', hfirst', -, hring⟩ := hneeds
  obtain rfl := Option.some.inj (hfirst.symm.trans hfirst')
  cases hfind : s.findPair means first.image.publicKey with
  | none => rfl
  | some pair =>
    obtain ⟨hkey, hsource⟩ := State.findPair_eq_some hfind
    rcases hsource with hmem | hmem
    · exact absurd hkey (hring pair hmem)
    · -- The pair would have been generated for an image that embedded its key before.
      obtain ⟨size, hsize⟩ := hg.embedded hfirst hkey
      have hmade : means.generate size.bits = .ok pair := by
        rw [← hsize]
        exact hgenerated _ hmem
      exact absurd hkey ((hg.of_generate hmade).2 hfirst)

end Pairs

/-- A pair is at hand for the key of an image that needs no new one. -/
theorem exists_findPair {first : Record} (hfirst : found.records.lookup name = some first)
    (hdue : first.image.publicKey.isSome ∨ .invalidSignature name ∈ found.issues)
    (hneeds : ¬NeedsKey means found name) (s : State) :
    ∃ pair, s.findPair means first.image.publicKey = some pair ∧
      first.image.publicKey = some pair.publicKey := by
  have hring : ∃ pair ∈ means.keyring, first.image.publicKey = some pair.publicKey := by
    by_contra hnone
    exact hneeds ⟨first, hfirst, hdue, fun pair hmem heq => hnone ⟨pair, hmem, heq⟩⟩
  obtain ⟨pair, hmem, hkey⟩ := hring
  have hfound : (means.keyring.find? pair.publicKey).isSome :=
    List.find?_isSome.2 ⟨pair, hmem, decide_eq_true rfl⟩
  obtain ⟨pair', hpair'⟩ := Option.isSome_iff_exists.1 hfound
  have hfind : s.findPair means first.image.publicKey = some pair' := by
    rw [hkey]
    unfold State.findPair
    simp only [hpair']
    rfl
  exact ⟨pair', hfind, (State.findPair_eq_some hfind).1⟩

/-! ### Images -/

/-- What is found behind references does not depend on what waits. -/
theorem Intact.pop (hi : Intact found s) (rest : List Issue) :
    Intact found { s with queue := rest } :=
  ⟨hi.record, hi.present, hi.declared, hi.references⟩

/-- A record that was found is still there, with its frame. -/
theorem Intact.exists_record (hi : Intact found s) {first : Record}
    (hfirst : found.records.lookup name = some first) :
    ∃ record, s.records.lookup name = some record ∧ record.image.SameFrame first.image ∧
      (s.signer name = none → record.image.header = first.image.header ∧
        record.image.publicKey = first.image.publicKey) := by
  obtain ⟨record, hrecord⟩ := hi.present hfirst
  obtain ⟨first', hfirst', hframe, hsame⟩ := hi.record hrecord
  obtain rfl := Option.some.inj (hfirst.symm.trans hfirst')
  exact ⟨record, hrecord, hframe, hsame⟩

section Chained

variable {refs : List (Reference × ChainDescriptor)} (hi : Intact found s)
  (hg : Grounded means found) (hrefs : s.chainReferences name = .ok refs)
include hi hrefs

/-- Whoever has a chain descriptor of a partition is among the references to it. -/
theorem Intact.exists_mem_of_chains {p : String} (hp : p ≠ name) (h : Chains found p name) :
    ∃ r d, (r, d) ∈ refs ∧ r.holder = p := by
  obtain ⟨i, first, d, href, hfirst, hd⟩ := h
  obtain ⟨record, hrecord, hframe, -⟩ := hi.exists_record hfirst
  obtain ⟨d', hd', -⟩ := Image.SameFrame.chain (Eq.symm hframe) hd
  rw [← hi.references] at href
  exact ⟨⟨name, p, i⟩, d', (State.mem_chainReferences hrefs).2
    ⟨href, rfl, hp, (State.chainAt_eq_ok rfl).2 ⟨record, hrecord, hd'⟩⟩, rfl⟩

include hg

/-- The references to a partition are from others that have a chain descriptor of it, and an issue
about one of them can be mended. -/
theorem Intact.chains_of_mem {r : Reference} {d : ChainDescriptor} (h : (r, d) ∈ refs) :
    r.holder ≠ name ∧ Chains found r.holder name ∧
      ∀ pair, pair.publicKey.Standard → Mendable found (State.stale pair r) := by
  obtain ⟨href, rfl, hholder, hat⟩ := (State.mem_chainReferences hrefs).1 h
  rw [hi.references] at href
  obtain ⟨i, hindex⟩ := hg.index r href
  obtain ⟨record, hrecord, hd⟩ := (State.chainAt_eq_ok hindex).1 hat
  obtain ⟨first, hfirst, hframe, -⟩ := hi.record hrecord
  obtain ⟨d', hd', -⟩ := hframe.chain hd
  refine ⟨hholder, ⟨i, first, d', hindex ▸ href, hfirst, hd'⟩, fun pair hpair => ?_⟩
  rw [State.stale, hindex]
  refine .chain hfirst hd' fun k hk => ?_
  obtain rfl := Option.some.inj hk
  exact hpair

/-- An image that others have a chain descriptor of can get a new key. -/
theorem Intact.exists_rekey (hgenerated : ∀ e ∈ s.generated, means.generate e.1 = .ok e.2)
    {record : Record} {algorithm : Algorithm} (hrecord : s.records.lookup name = some record)
    (halgorithm : record.image.algorithm = .ok algorithm) (hne : refs ≠ []) :
    ∃ s', s.rekey means name = .ok s' := by
  obtain ⟨⟨r, declared⟩, others, rfl⟩ := List.exists_cons_of_ne_nil hne
  obtain ⟨href, -, -, hat⟩ := (State.mem_chainReferences hrefs).1 List.mem_cons_self
  rw [hi.references] at href
  obtain ⟨i, hindex⟩ := hg.index r href
  obtain ⟨size, hsize⟩ := hi.standard_freshBits hindex hat
  obtain ⟨pair, made, hpair, hstandard⟩ := hg.exists_generatedPair hgenerated size
  have hsame := (State.generated_of_generatedPair hpair).1
  have hlookup : made.records.lookup name = some record := by
    rw [hsame]
    exact hrecord
  rw [← hsize] at hpair
  -- The new key is not looked at when the image is signed, only the algorithm is.
  obtain ⟨signed, hsigned⟩ : ∃ signed, (made.setImage name record
      { record.image with publicKey := some pair.publicKey }).signWith name pair = .ok signed :=
    State.exists_signWith (Entries.lookup_assign_self _ _ _) halgorithm hstandard
  exact ⟨_, Outcome.bind_eq_ok.2 ⟨_, hrefs, Outcome.bind_eq_ok.2 ⟨_, hpair, Outcome.bind_eq_ok.2
    ⟨_, State.record_eq_ok.2 hlookup, Outcome.bind_eq_ok.2 ⟨_, hsigned, rfl⟩⟩⟩⟩⟩

end Chained

end Repair

end VerifiedBoot
