import VerifiedBoot.Proofs.Malformed
import VerifiedBoot.Proofs.Walk.Consistency

/-!
# Why a verification fails

A verification reads partitions that anybody may have written. It fails if a partition is absent
that has to be there, and if it comes to compute a digest that has no length of its own. Nothing
else in a partition makes it fail: what cannot be read, or names a digest that nobody knows, is an
issue.

The walk stops at the first descriptor whose check fails, so a failure of the walk is a failure of
one of the descriptors that it comes to.
-/

namespace VerifiedBoot

/-- A partition that cannot be opened is not there. -/
theorem Store.open_eq_error {store : Store} {name : String} {e : Error}
    (h : store.open? name = .error e) : store.partitions.lookup name = none ∧
      e = store.absent name := by
  unfold open? at h
  split at h
  · cases h
  · next hlookup => exact ⟨hlookup, (Except.error.inj h).symm⟩

/-- The image of a partition can be looked for where the partition can be opened. -/
theorem Store.open_of_image_eq_error {store : Store} {suite : Suite} {name : String} {e : Error}
    (h : store.image suite name = .error e) : store.open? name = .error e := by
  rcases Outcome.bind_eq_error.1 h with hopen | ⟨data, -, hread⟩
  · exact hopen
  · obtain ⟨image, himage⟩ := PartitionInfo.exists_readImage suite data
    exact absurd (hread.symm.trans himage) (by simp)

/-- A partition can be probed where it can be opened. -/
theorem Store.open_of_info_eq_error {store : Store} {name : String} {e : Error}
    (h : store.info name = .error e) : store.open? name = .error e := by
  rcases Outcome.bind_eq_error.1 h with hopen | ⟨data, -, hprobe⟩
  · exact hopen
  · cases hprobe

/-- A measurement in chunks of at least one byte fails if there is no partition, or if the digest
has no length of its own. -/
theorem Measurement.take_eq_error {suite : Suite} {store : Store} {chunkSize size : Int}
    {d : HashDescriptor} {data : Bytes} {e : Error} (hchunk : 1 ≤ chunkSize)
    (hdata : store.open? d.partitionName = .ok data)
    (h : take suite store chunkSize d size = .error e) :
    suite.named d.hashAlgorithm = .extendable ∧ e = .digestUnsized d.hashAlgorithm := by
  by_cases hnamed : suite.named d.hashAlgorithm = .extendable
  · refine ⟨hnamed, ?_⟩
    obtain ⟨payload, hpayload⟩ := @exists_read d.partitionName chunkSize (min size data.length) data
      hchunk (Int.min_le_right _ _)
    unfold take at h
    simp only [hnamed, hdata, hpayload, bind, Except.bind] at h
    exact (Except.error.inj h).symm
  · obtain ⟨m, hm⟩ := exists_take hchunk hdata hnamed size
    exact absurd (h.symm.trans hm) (by simp)

/-- An image without chain descriptors leads nowhere. -/
theorem Store.Reach.eq_root {store : Store} {suite : Suite} {root name : String} {image : Image}
    (h : store.Reach suite root name) (himage : store.image suite root = .ok (some image))
    (hleaf : ∀ d, .chain d ∉ image.descriptors) : name = root := by
  induction h with
  | root => rfl
  | @chain holder image' d _ hholder hd ih =>
    rw [ih] at hholder
    obtain rfl := Outcome.ok_some_unique himage hholder
    exact absurd hd (hleaf d)

namespace Verifier

variable {v : Verifier} {store : Store}

/-! ### The walk fails at a descriptor -/

/-- A hash descriptor whose check fails does so whatever was found before. -/
theorem inspect_of_hash_eq_error {p : Pending} {d : HashDescriptor} {f : Findings} {e : Error}
    (hp : p.descriptor = .hash d) (h : v.checkHashDescriptor store p d f = .error e) :
    v.inspect store p = .error e := by
  rw [← Findings.merge_empty f, checkHashDescriptor_merge, Outcome.map_eq_error] at h
  rw [inspect, hp]
  exact h

/-- A chain descriptor whose check fails does so whatever was found before. -/
theorem inspect_of_chain_eq_error {p : Pending} {d : ChainDescriptor} {f : Findings} {e : Error}
    (hp : p.descriptor = .chain d) (h : v.checkChainDescriptor store p d f = .error e) :
    v.inspect store p = .error e := by
  rw [← Findings.merge_empty f, checkChainDescriptor_merge, Outcome.map_eq_error] at h
  rw [inspect, hp]
  exact Outcome.map_eq_error.2 h

/-- A partition can be entered where its image can be looked for. -/
theorem image_of_enter_eq_error {name : String} {f : Findings} {e : Error}
    (h : v.enter store name f = .error e) : store.image v.suite name = .error e := by
  rcases Outcome.bind_eq_error.1 h with himage | ⟨image, -, h⟩
  · exact himage
  · cases image <;> cases h

/-- A walk that fails comes to a descriptor whose check fails. -/
theorem exists_inspect_eq_error {unvisited : List String} {agenda : List Pending} {f : Findings}
    {e : Error} (h : v.walk store unvisited agenda f = .error e) :
    ∃ p, v.Scheduled store unvisited agenda p ∧ v.inspect store p = .error e := by
  revert h
  -- The cases are those of the walk. What the shorter agenda leads to, the longer one does as well.
  have hmore {unvisited : List String} {p q : Pending} {rest : List Pending}
      (hq : v.Scheduled store unvisited rest q) : v.Scheduled store unvisited (p :: rest) q :=
    hq.mono (List.Subset.refl _) fun q hq => .here (.tail p hq)
  fun_induction Verifier.walk v store unvisited agenda f with
  | case1 =>
    intro h
    cases h
  | case2 unvisited f p rest d hd e' hcheck =>
    intro h
    obtain rfl := Except.error.inj h
    exact ⟨p, .here List.mem_cons_self, inspect_of_hash_eq_error hd hcheck⟩
  | case3 unvisited f p rest d hd f₁ hcheck ih =>
    intro h
    obtain ⟨q, hq, hinspect⟩ := ih h
    exact ⟨q, hmore hq, hinspect⟩
  | case4 unvisited f p rest d hd e' hcheck =>
    intro h
    obtain rfl := Except.error.inj h
    exact ⟨p, .here List.mem_cons_self, inspect_of_chain_eq_error hd hcheck⟩
  | case5 unvisited f p rest d hd f₁ hmem e' henter hcheck =>
    -- The image was looked for by the check of the chain descriptor already.
    obtain ⟨image, himage, -⟩ := v.readable_of_checkChainDescriptor store hcheck
    exact absurd (himage.symm.trans (image_of_enter_eq_error henter)) (by simp)
  | case6 unvisited f p rest d hd f₁ hmem next f₂ henter hcheck ih =>
    intro h
    obtain ⟨image, himage, hsome⟩ := v.readable_of_checkChainDescriptor store hcheck
    obtain ⟨image, rfl⟩ := Option.isSome_iff_exists.1 hsome
    obtain ⟨image', himage', rfl, -⟩ := holds_enter henter
    obtain rfl := Outcome.ok_unique himage himage'
    obtain ⟨q, hq, hinspect⟩ := ih h
    exact ⟨q, (scheduled_cons_of_chain hd hmem himage).2 (.inr hq), hinspect⟩
  | case7 unvisited f p rest d hd f₁ hmem hcheck ih =>
    intro h
    obtain ⟨q, hq, hinspect⟩ := ih h
    exact ⟨q, hmore hq, hinspect⟩
  | case8 unvisited f p rest d hd readable f₁ hcheck hread ih =>
    intro h
    obtain ⟨q, hq, hinspect⟩ := ih h
    exact ⟨q, hmore hq, hinspect⟩
  | case9 unvisited f p rest hhash hchain ih =>
    intro h
    obtain ⟨q, hq, hinspect⟩ := ih h
    exact ⟨q, hmore hq, hinspect⟩

/-- A verification that fails could not open the root, or could not check a descriptor that it
visits. -/
theorem verify_eq_error {root : String} {e : Error} (h : v.verify store root = .error e) :
    store.image v.suite root = .error e ∨
      ∃ p, v.Visits store root p ∧ v.inspect store p = .error e := by
  rcases Outcome.bind_eq_error.1 h with henter | ⟨⟨agenda, f⟩, henter, h₁⟩
  · exact .inl (image_of_enter_eq_error henter)
  · rcases Outcome.bind_eq_error.1 h₁ with hwalk | ⟨f', -, h₂⟩
    · obtain ⟨image, himage, rfl, -⟩ := holds_enter henter
      obtain ⟨p, hp, hinspect⟩ := exists_inspect_eq_error hwalk
      exact .inr ⟨p, (scheduled_root himage p).1 hp, hinspect⟩
    · cases h₂

/-! ### The check of a descriptor fails -/

/-- Whether a partition ends in a footer that counts, and the last hash that its image keeps of the
partition itself is at an index. -/
def Embeds (v : Verifier) (store : Store) (target : String) (footer : Footer) (index : Nat)
    (e : HashDescriptor) : Prop :=
  ∃ data image, store.open? target = .ok data ∧ Footed data footer ∧
    store.image v.suite target = .ok (some image) ∧ image.LastHash target index e

/-- Whether a hash descriptor comes to be measured with a digest that has no length of its own. If
the partition that it names has a footer, the hash that is embedded there is measured first. -/
inductive Unsized (v : Verifier) (store : Store) (d : HashDescriptor) : String → Prop
  | bare {data : Bytes} : store.open? d.partitionName = .ok data →
    (∀ footer, ¬Footed data footer) → v.suite.named d.hashAlgorithm = .extendable →
    Unsized v store d d.hashAlgorithm
  | embedded {footer : Footer} {index : Nat} {e : HashDescriptor} :
    v.Embeds store d.partitionName footer index e →
    v.suite.named e.hashAlgorithm = .extendable → Unsized v store d e.hashAlgorithm
  | outer {footer : Footer} {index : Nat} {e : HashDescriptor} {digest : Bytes → Bytes} :
    v.Embeds store d.partitionName footer index e →
    v.suite.named e.hashAlgorithm = .plain digest →
    v.suite.named d.hashAlgorithm = .extendable → Unsized v store d d.hashAlgorithm

/-- A check of a hash fails where its measurement does. -/
theorem take_of_checkHash_eq_error {holder : String} {index : Nat} {d : HashDescriptor} {size : Int}
    {f : Findings} {e : Error} (h : v.checkHash store holder index d size f = .error e) :
    Measurement.take v.suite store v.chunkSize d size = .error e := by
  rcases Outcome.bind_eq_error.1 h with htake | ⟨m, -, h⟩
  · exact htake
  · cases m <;> cases h

/-- A hash descriptor cannot be checked if its partition is absent, or if it comes to a digest that
has no length of its own. -/
theorem inspect_hash_eq_error {p : Pending} {d : HashDescriptor} {e : Error}
    (hchunk : 1 ≤ v.chunkSize) (hp : p.descriptor = .hash d) (h : v.inspect store p = .error e) :
    store.open? d.partitionName = .error e ∨
      ∃ algorithm, v.Unsized store d algorithm ∧ e = .digestUnsized algorithm := by
  cases hdata : store.open? d.partitionName with
  | error e' =>
    rw [inspect, hp] at h
    rcases Outcome.bind_eq_error.1 h with hinfo | ⟨info, hinfo, -⟩
    · exact .inl (hdata.symm.trans (Store.open_of_info_eq_error hinfo))
    · obtain ⟨data, hopen, -⟩ := Outcome.bind_eq_ok.1 hinfo
      cases hdata.symm.trans hopen
  | ok data =>
    refine .inr ?_
    have hinfo : store.info d.partitionName = .ok (PartitionInfo.probe data) :=
      Outcome.bind_eq_ok.2 ⟨data, hdata, rfl⟩
    have hunsized {c : HashDescriptor} {size : Int} (hname : c.partitionName = d.partitionName)
        (htake : Measurement.take v.suite store v.chunkSize c size = .error e) :=
      Measurement.take_eq_error hchunk (hname ▸ hdata) htake
    rw [inspect, hp] at h
    rcases Outcome.bind_eq_error.1 h with hinfo' | ⟨info, hinfo', h₁⟩
    · cases hinfo.symm.trans hinfo'
    obtain rfl := Outcome.ok_unique hinfo hinfo'
    cases hfooter : (PartitionInfo.probe data).bind (·.footer) with
    | none =>
      simp only [hfooter] at h₁
      rcases Outcome.bind_eq_error.1 h₁ with hcheck | ⟨_, _, h₂⟩
      · obtain ⟨hnamed, rfl⟩ := hunsized rfl (take_of_checkHash_eq_error hcheck)
        refine ⟨_, .bare hdata (fun footer hfooted => ?_) hnamed, rfl⟩
        exact absurd (hfooter.symm.trans (PartitionInfo.probe_eq_footer.2 hfooted)) (by simp)
      · cases h₂
    | some footer =>
      simp only [hfooter] at h₁
      rcases Outcome.bind_eq_error.1 h₁ with himage | ⟨image, himage, h₂⟩
      · cases hdata.symm.trans (Store.open_of_image_eq_error himage)
      cases image with
      | none => cases h₂
      | some image =>
        cases hlast : lastHash? image d.partitionName with
        | none =>
          simp only [hlast] at h₂
          cases h₂
        | some last =>
          obtain ⟨index, c⟩ := last
          have hlastHash := lastHash?_eq_some.1 hlast
          have hembeds : v.Embeds store d.partitionName footer index c :=
            ⟨data, image, hdata, PartitionInfo.probe_eq_footer.1 hfooter, himage, hlastHash⟩
          have hname := partitionName_of_lastHash hlastHash
          simp only [hlast] at h₂
          rcases Outcome.bind_eq_error.1 h₂ with hcheck | ⟨⟨checked, f⟩, hcheck, h₃⟩
          · obtain ⟨hnamed, rfl⟩ := hunsized hname (take_of_checkHash_eq_error hcheck)
            exact ⟨_, .embedded hembeds hnamed, rfl⟩
          · obtain ⟨m, hm, rfl, -⟩ := holds_checkHash hcheck
            -- The outer hash is measured only where the digest of the inner one is known.
            rcases Measurement.take_eq_ok hm with ⟨_, rfl⟩ | ⟨digest, _, hplain, _, rfl⟩
            · cases h₃
            · rcases Outcome.bind_eq_error.1 h₃ with hcheck' | ⟨_, _, h₄⟩
              · obtain ⟨hnamed, rfl⟩ := hunsized rfl (take_of_checkHash_eq_error hcheck')
                exact ⟨_, .outer hembeds hplain hnamed, rfl⟩
              · cases h₄

/-- A descriptor cannot be checked if its partition is absent, or if it is a hash that comes to a
digest that has no length of its own. -/
theorem inspect_eq_error {p : Pending} {e : Error} (hchunk : 1 ≤ v.chunkSize)
    (h : v.inspect store p = .error e) :
    (∃ name, p.descriptor.target? = some name ∧ store.open? name = .error e) ∨
      ∃ d algorithm, p.descriptor = .hash d ∧ v.Unsized store d algorithm ∧
        e = .digestUnsized algorithm := by
  cases hp : p.descriptor with
  | hash d =>
    rcases inspect_hash_eq_error hchunk hp h with hopen | ⟨algorithm, hunsized, rfl⟩
    · exact .inl ⟨_, rfl, hopen⟩
    · exact .inr ⟨d, algorithm, rfl, hunsized, rfl⟩
  | chain d =>
    rw [inspect, hp] at h
    rcases Outcome.bind_eq_error.1 (Outcome.map_eq_error.1 h) with himage | ⟨image, -, h₁⟩
    · exact .inl ⟨_, rfl, Store.open_of_image_eq_error himage⟩
    · cases image <;> cases h₁
  | hashtree _ | property _ | cmdline _ | unknown _ =>
    have hok : v.inspect store p = .ok Findings.empty :=
      inspect_of_target?_eq_none (by rw [hp]; rfl)
    cases h.symm.trans hok

/-- A hash that comes to a digest that has no length of its own cannot be checked. -/
theorem Unsized.inspect_ne_ok {p : Pending} {d : HashDescriptor} {algorithm : String}
    (h : v.Unsized store d algorithm) (hp : p.descriptor = .hash d) (g : Findings) :
    v.inspect store p ≠ .ok g := by
  intro hg
  obtain ⟨data, hdata, -, hmeasurable⟩ := exists_measurable hp hg
  have hno {c : HashDescriptor} {size : Int} {m : Option Measurement}
      (hnamed : v.suite.named c.hashAlgorithm = .extendable)
      (htake : Measurement.take v.suite store v.chunkSize c size = .ok m) : False := by
    rcases Measurement.take_eq_ok htake with ⟨hother, -⟩ | ⟨_, _, hother, -⟩
    · cases hnamed.symm.trans hother
    · cases hnamed.symm.trans hother
  have hembedded {footer : Footer} {index : Nat} {c : HashDescriptor}
      (hembeds : v.Embeds store d.partitionName footer index c) :
      ∃ m, Measurement.take v.suite store v.chunkSize c footer.originalImageSize = .ok m ∧
        (m.isSome → ∃ m',
          Measurement.take v.suite store v.chunkSize d footer.originalImageSize = .ok m') := by
    obtain ⟨data', image, hdata', hfooted, himage, hlast⟩ := hembeds
    obtain rfl := Outcome.ok_unique hdata hdata'
    obtain ⟨image', himage', hall⟩ :=
      (measurable_of_footed (PartitionInfo.probe_eq_footer.2 hfooted)).1 hmeasurable
    obtain rfl := Outcome.ok_unique himage himage'
    exact hall image index c rfl (lastHash?_eq_some.2 hlast)
  -- The three places at which a digest without a length is asked for are the three at which a check
  -- that goes through has taken a measurement.
  cases h with
  | bare hdata' hbare hnamed =>
    obtain rfl := Outcome.ok_unique hdata hdata'
    cases hfooter : (PartitionInfo.probe data).bind (·.footer) with
    | none =>
      obtain ⟨m, hm⟩ := (measurable_of_bare hfooter).1 hmeasurable
      exact hno hnamed hm
    | some footer => exact hbare footer (PartitionInfo.probe_eq_footer.1 hfooter)
  | embedded hembeds hnamed =>
    obtain ⟨m, hm, -⟩ := hembedded hembeds
    exact hno hnamed hm
  | outer hembeds hplain hnamed =>
    obtain ⟨m, hm, hsome⟩ := hembedded hembeds
    rcases Measurement.take_eq_ok hm with ⟨hother, -⟩ | ⟨_, _, -, -, rfl⟩
    · cases hplain.symm.trans hother
    · obtain ⟨m', hm'⟩ := hsome rfl
      exact hno hnamed hm'

/-! ### What is reported instead -/

/-- Whether a digest of its own length can be computed under a name. -/
def Computes (v : Verifier) (algorithm : String) : Prop :=
  ∃ digest, v.suite.named algorithm = .plain digest

/-- Nothing is measured with a digest that cannot be computed. -/
theorem take_eq_none {d : HashDescriptor} {size : Int} {m : Option Measurement}
    (hnot : ¬v.Computes d.hashAlgorithm)
    (h : Measurement.take v.suite store v.chunkSize d size = .ok m) : m = none := by
  rcases Measurement.take_eq_ok h with ⟨-, hnone⟩ | ⟨digest, _, hplain, -, -⟩
  · exact hnone
  · exact absurd ⟨digest, hplain⟩ hnot

/-- A hash that is embedded in the partition it names, and whose digest cannot be computed, makes
the data of this partition invalid. -/
theorem hashFinds_of_embedded_unusable {p : Pending} {d e : HashDescriptor} {g : Findings}
    {footer : Footer} {index : Nat} (hp : p.descriptor = .hash d) (hg : v.inspect store p = .ok g)
    (hembeds : v.Embeds store d.partitionName footer index e)
    (hnot : ¬v.Computes e.hashAlgorithm) :
    HashFinds v store p d (.issue (.invalidPartitionData d.partitionName)) := by
  obtain ⟨data, hdata, hinfo, hmeasurable⟩ := exists_measurable hp hg
  obtain ⟨data', image, hdata', hfooted, himage, hlastHash⟩ := hembeds
  obtain rfl := Outcome.ok_unique hdata hdata'
  have hfooter := PartitionInfo.probe_eq_footer.2 hfooted
  have hlast := lastHash?_eq_some.2 hlastHash
  obtain ⟨image', himage', hall⟩ := (measurable_of_footed hfooter).1 hmeasurable
  obtain rfl := Outcome.ok_unique himage himage'
  obtain ⟨m, hm, -⟩ := hall image index e rfl hlast
  obtain rfl := take_eq_none hnot hm
  exact .embedded hinfo hfooter himage hlast hm .unknown

/-- A hash whose digest cannot be computed makes the data of the partition that holds it invalid, or
else that of the partition that it names. -/
theorem hashFinds_of_unusable {p : Pending} {d : HashDescriptor} {g : Findings}
    (hp : p.descriptor = .hash d) (hg : v.inspect store p = .ok g)
    (hnot : ¬v.Computes d.hashAlgorithm) :
    HashFinds v store p d (.issue (.invalidPartitionData p.holder)) ∨
      HashFinds v store p d (.issue (.invalidPartitionData d.partitionName)) := by
  obtain ⟨data, hdata, hinfo, hmeasurable⟩ := exists_measurable hp hg
  cases hfooter : (PartitionInfo.probe data).bind (·.footer) with
  | none =>
    obtain ⟨m, hm⟩ := (measurable_of_bare hfooter).1 hmeasurable
    obtain rfl := take_eq_none hnot hm
    exact .inl (.bare hinfo hfooter hm .unknown)
  | some footer =>
    obtain ⟨image, himage, hall⟩ := (measurable_of_footed hfooter).1 hmeasurable
    cases image with
    | none => exact .inr (.unreadable hinfo hfooter himage)
    | some image =>
      cases hlast : lastHash? image d.partitionName with
      | none => exact .inr (.missing hinfo hfooter himage hlast)
      | some last =>
        obtain ⟨index, e⟩ := last
        obtain ⟨m, hm, hsome⟩ := hall image index e rfl hlast
        cases m with
        | none => exact .inr (.embedded hinfo hfooter himage hlast hm .unknown)
        -- Only now is the descriptor itself looked at, and it is its holder that is blamed.
        | some m =>
          obtain ⟨m', hm'⟩ := hsome rfl
          obtain rfl := take_eq_none hnot hm'
          exact .inl (.outer hinfo hfooter himage hlast hm hm' .unknown)

/-- **When a verification fails.** It returns, and then every hash whose digest cannot be computed
was reported; or a partition is absent, which is the root or is named by a descriptor that is
visited; or a hash that is visited comes to a digest that has no length of its own. Nothing else
that a partition may hold makes it fail. -/
theorem verify_cases {root : String} (hchunk : 1 ≤ v.chunkSize)
    (habsent : ∀ name, store.absent name = .partitionMissing name) :
    (∃ found, v.verify store root = .ok found ∧
      ∀ p d, v.Visits store root p → p.descriptor = .hash d →
        (∀ algorithm, ¬v.Unsized store d algorithm) ∧
        (¬v.Computes d.hashAlgorithm → .invalidPartitionData p.holder ∈ found.issues ∨
          .invalidPartitionData d.partitionName ∈ found.issues) ∧
        ∀ footer index e, v.Embeds store d.partitionName footer index e →
          ¬v.Computes e.hashAlgorithm → .invalidPartitionData d.partitionName ∈ found.issues) ∨
    (∃ name, v.verify store root = .error (.partitionMissing name) ∧
      store.partitions.lookup name = none ∧
      (name = root ∨ ∃ p, v.Visits store root p ∧ p.descriptor.target? = some name)) ∨
    ∃ p d algorithm, v.Visits store root p ∧ p.descriptor = .hash d ∧
      v.Unsized store d algorithm ∧ v.verify store root = .error (.digestUnsized algorithm) := by
  have hmissing {name : String} {e : Error} (h : store.open? name = .error e) :
      store.partitions.lookup name = none ∧ e = .partitionMissing name := by
    rw [← habsent]
    exact Store.open_eq_error h
  cases hverify : v.verify store root with
  | ok found =>
    obtain ⟨-, hinspected, hissues, -⟩ := verify_eq_ok hverify
    refine .inl ⟨found, rfl, fun p d hvisits hp => ?_⟩
    obtain ⟨g, hg⟩ := hinspected p hvisits
    have hreported {issue : Issue} (h : HashFinds v store p d (.issue issue)) :
        issue ∈ found.issues :=
      (hissues issue).2 (.visit hvisits hg ((holds_inspect_hash hp hg _).2 (.inr h)))
    refine ⟨fun algorithm h => h.inspect_ne_ok hp g hg, fun hnot => ?_,
      fun footer index e hembeds hnot =>
        hreported (hashFinds_of_embedded_unusable hp hg hembeds hnot)⟩
    exact (hashFinds_of_unusable hp hg hnot).imp hreported hreported
  | error e =>
    refine .inr ?_
    rcases verify_eq_error hverify with himage | ⟨p, hvisits, hinspect⟩
    · obtain ⟨hlookup, rfl⟩ := hmissing (Store.open_of_image_eq_error himage)
      exact .inl ⟨root, rfl, hlookup, .inl rfl⟩
    · rcases inspect_eq_error hchunk hinspect with
        ⟨name, htarget, hopen⟩ | ⟨d, algorithm, hp, hunsized, rfl⟩
      · obtain ⟨hlookup, rfl⟩ := hmissing hopen
        exact .inl ⟨name, rfl, hlookup, .inr ⟨p, hvisits, htarget⟩⟩
      · exact .inr ⟨p, d, algorithm, hvisits, hp, hunsized, rfl⟩

/-- A hash with an algorithm whose digests have no length of their own. -/
def shakeHash : HashDescriptor :=
  ⟨0, "shake_128", "boot", [], [], 0, Bytes.zeros 60⟩

/-- An unsigned image with this hash. -/
def shakeImage : Image :=
  { Image.empty with descriptors := [.hash shakeHash] }

/-- A store with the image and the partition that the hash names. -/
def shakeStore : Store :=
  .ofList [("vbmeta", (shakeImage.encodeUnsigned .standard 64).1.toOption.getD []), ("boot", [1])]

/-- The image of the store has the one descriptor, and no other descriptor is visited. -/
theorem visits_shakeStore {p : Pending} :
    Visits ⟨.standard, defaultChunkSize⟩ shakeStore "vbmeta" p ↔
      p = ⟨"vbmeta", 0, .hash shakeHash⟩ := by
  have hok : (shakeImage.encodeUnsigned .standard 64).1.toBool = true := by decide +kernel
  have hrange : shakeImage.InRange := by
    refine Image.inRange_of_descriptors (List.forall_mem_singleton.2 ?_)
    refine ⟨?_, ?_, ?_, ?_, ?_, ?_, ?_⟩
    all_goals decide
  obtain ⟨blob, n, hblob, -, hparse⟩ :=
    @Image.exists_parse_encodeUnsigned .standard _ _ hok hrange (by decide)
  have hopen : shakeStore.open? "vbmeta" = .ok blob := by
    simp [shakeStore, Store.ofList, Store.open?, hblob, Except.toOption]
  have himage := Store.image_of_parse hopen hparse
  have hleaf : ∀ d, .chain d ∉ (Image.unsignedImage shakeImage n).descriptors := by
    simp [Image.unsignedImage, shakeImage]
  have hmem : p ∈ Pending.ofImage "vbmeta" (Image.unsignedImage shakeImage n) ↔
      p = ⟨"vbmeta", 0, .hash shakeHash⟩ := List.mem_singleton
  constructor
  · rintro ⟨name, holder, hreach, hholder, hp⟩
    rw [hreach.eq_root himage hleaf] at hholder hp
    obtain rfl := Outcome.ok_some_unique himage hholder
    exact hmem.1 hp
  · exact fun hp => ⟨"vbmeta", Image.unsignedImage shakeImage n, .root, himage, hmem.2 hp⟩

/-- A hash of an extendable digest makes the verification fail, although all partitions are
there. -/
theorem verify_cases_shakeStore :
    (1 ≤ defaultChunkSize ∧ ∀ name, shakeStore.absent name = .partitionMissing name) ∧
      verify ⟨.standard, defaultChunkSize⟩ shakeStore "vbmeta" =
        .error (.digestUnsized "shake_128") := by
  have hopen : shakeStore.open? shakeHash.partitionName = .ok [1] := rfl
  have hbare (footer : Footer) : ¬Footed [1] footer := fun h => absurd h.length (by decide)
  refine ⟨⟨by decide, fun _ => rfl⟩, ?_⟩
  rcases @verify_cases ⟨.standard, defaultChunkSize⟩ shakeStore "vbmeta" (by decide) fun _ => rfl
    with ⟨found, -, hfound⟩ | ⟨name, -, hlookup, hname⟩ | ⟨p, d, algorithm, hvisits, hp, h, hverify⟩
  · obtain ⟨hsized, -⟩ := hfound _ _ (visits_shakeStore.2 rfl) rfl
    exact absurd (.bare hopen hbare rfl) (hsized _)
  · rcases hname with rfl | ⟨p, hvisits, htarget⟩
    · cases hlookup
    · obtain rfl := visits_shakeStore.1 hvisits
      obtain rfl := Option.some.inj htarget
      cases hlookup
  · obtain rfl := visits_shakeStore.1 hvisits
    obtain rfl := Descriptor.hash.inj hp
    cases h with
    | bare => exact hverify
    | embedded hembeds | outer hembeds =>
      obtain ⟨data, image, hdata, hfooted, -⟩ := hembeds
      obtain rfl := Outcome.ok_unique hopen hdata
      exact absurd hfooted (hbare _)

end Verifier

end VerifiedBoot
