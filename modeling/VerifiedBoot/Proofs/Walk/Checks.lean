import VerifiedBoot.Proofs.Walk.Findings

/-!
# What a descriptor gives on its own

The findings of each kind of check, as relations with one constructor for each reason to find
something. A measurement is none if nobody knows the digest that the descriptor names.
-/

namespace VerifiedBoot

/-- What the measurement of a partition for a hash descriptor finds. -/
inductive MeasureFinds (holder : String) (index : Nat) (d : HashDescriptor) :
    Option Measurement → Finding → Prop
  | unknown : MeasureFinds holder index d none (.issue (.invalidPartitionData holder))
  | stale {m : Measurement} : m.agrees d = false →
    MeasureFinds holder index d (some m) (.issue (.hashMismatch holder index m.size m.digest))

/-- What the check of a chain descriptor finds, beside the reference. -/
inductive ChainFinds (p : Pending) (d : ChainDescriptor) : Option Image → Finding → Prop
  | unreadable : ChainFinds p d none (.issue (.invalidPartitionData d.partitionName))
  | loaded {image : Image} : ChainFinds p d (some image) (.loaded d.partitionName)
  | unsigned {image : Image} : image.signatureValid = false →
    ChainFinds p d (some image) (.issue (.invalidSignature d.partitionName))
  | otherKey {image : Image} : image.publicKey.isSome → image.publicKey ≠ d.publicKey →
    ChainFinds p d (some image) (.issue (.publicKeyMismatch p.holder p.index image.publicKey))

/-- What it finds to enter a partition. -/
inductive EnterFinds (name : String) : Option Image → Finding → Prop
  | unreadable : EnterFinds name none (.issue (.invalidPartitionData name))
  | loaded {image : Image} : EnterFinds name (some image) (.loaded name)
  | unsigned {image : Image} : image.publicKey.isSome → image.signatureValid = false →
    EnterFinds name (some image) (.issue (.invalidSignature name))

/-- What the check of a hash descriptor finds, beside the reference. -/
inductive HashFinds (v : Verifier) (store : Store) (p : Pending) (d : HashDescriptor) :
    Finding → Prop
  | bare {info : Option PartitionInfo} {m : Option Measurement} {x : Finding} :
    store.info d.partitionName = .ok info → info.bind (·.footer) = none →
    Measurement.take v.suite store v.chunkSize d d.imageSize = .ok m →
    MeasureFinds p.holder p.index d m x → HashFinds v store p d x
  | unreadable {info : Option PartitionInfo} {footer : Footer} :
    store.info d.partitionName = .ok info → info.bind (·.footer) = some footer →
    store.image v.suite d.partitionName = .ok none →
    HashFinds v store p d (.issue (.invalidPartitionData d.partitionName))
  | loaded {info : Option PartitionInfo} {footer : Footer} {image : Image} :
    store.info d.partitionName = .ok info → info.bind (·.footer) = some footer →
    store.image v.suite d.partitionName = .ok (some image) →
    HashFinds v store p d (.loaded d.partitionName)
  | missing {info : Option PartitionInfo} {footer : Footer} {image : Image} :
    store.info d.partitionName = .ok info → info.bind (·.footer) = some footer →
    store.image v.suite d.partitionName = .ok (some image) →
    Verifier.lastHash? image d.partitionName = none →
    HashFinds v store p d (.issue (.invalidPartitionData d.partitionName))
  | embedded {info : Option PartitionInfo} {footer : Footer} {image : Image} {index : Nat}
    {e : HashDescriptor} {m : Option Measurement} {x : Finding} :
    store.info d.partitionName = .ok info → info.bind (·.footer) = some footer →
    store.image v.suite d.partitionName = .ok (some image) →
    Verifier.lastHash? image d.partitionName = some (index, e) →
    Measurement.take v.suite store v.chunkSize e footer.originalImageSize = .ok m →
    MeasureFinds d.partitionName index e m x → HashFinds v store p d x
  | outer {info : Option PartitionInfo} {footer : Footer} {image : Image} {index : Nat}
    {e : HashDescriptor} {m : Measurement} {m' : Option Measurement} {x : Finding} :
    store.info d.partitionName = .ok info → info.bind (·.footer) = some footer →
    store.image v.suite d.partitionName = .ok (some image) →
    Verifier.lastHash? image d.partitionName = some (index, e) →
    Measurement.take v.suite store v.chunkSize e footer.originalImageSize = .ok (some m) →
    Measurement.take v.suite store v.chunkSize d footer.originalImageSize = .ok m' →
    MeasureFinds p.holder p.index d m' x → HashFinds v store p d x

/-- An issue of a hash descriptor is that data is of no use, or that the descriptor is stale. -/
theorem HashFinds.issue_cases {v : Verifier} {store : Store} {p : Pending} {d : HashDescriptor}
    {issue : Issue} (h : HashFinds v store p d (.issue issue)) :
    (∃ name, issue = .invalidPartitionData name) ∨
      ∃ holder index size digest, issue = .hashMismatch holder index size digest := by
  cases h with
  | unreadable | missing => exact .inl ⟨_, rfl⟩
  | bare _ _ _ hx | embedded _ _ _ _ _ hx | outer _ _ _ _ _ _ hx =>
    cases hx with
    | unknown => exact .inl ⟨_, rfl⟩
    | stale => exact .inr ⟨_, _, _, _, rfl⟩

namespace Verifier

variable {v : Verifier} {store : Store}

/-- What measuring adds. -/
theorem holds_checkHash {holder : String} {index : Nat} {d : HashDescriptor} {size : Int}
    {f f' : Findings} {checked : Bool}
    (h : v.checkHash store holder index d size f = .ok (checked, f')) :
    ∃ m, Measurement.take v.suite store v.chunkSize d size = .ok m ∧ checked = m.isSome ∧
      ∀ x, f'.Holds x ↔ f.Holds x ∨ MeasureFinds holder index d m x := by
  obtain ⟨m, hm, h⟩ := Outcome.bind_eq_ok.1 h
  refine ⟨m, hm, ?_⟩
  cases m with
  | none =>
    obtain ⟨rfl, rfl⟩ := Prod.mk.inj (Except.ok.inj h)
    refine ⟨rfl, fun x => ?_⟩
    rw [Findings.holds_report]
    refine or_congr_right ⟨?_, ?_⟩
    · rintro rfl
      exact .unknown
    · rintro ⟨⟩
      rfl
  | some m =>
    obtain ⟨rfl, rfl⟩ := Prod.mk.inj (Except.ok.inj h)
    refine ⟨rfl, fun x => ?_⟩
    rw [Findings.holds_reportIf, Bool.not_eq_true']
    refine or_congr_right ⟨?_, ?_⟩
    · rintro ⟨hm, rfl⟩
      exact .stale hm
    · rintro (⟨⟩ | ⟨hagrees⟩)
      exact ⟨hagrees, rfl⟩

/-- What a chain descriptor gives. -/
theorem holds_inspect_chain {p : Pending} {d : ChainDescriptor} {g : Findings}
    (hp : p.descriptor = .chain d) (h : v.inspect store p = .ok g) :
    ∃ image, store.image v.suite d.partitionName = .ok image ∧ ∀ x, g.Holds x ↔
      x = .reference ⟨d.partitionName, p.holder, p.index⟩ ∨ ChainFinds p d image x := by
  rw [inspect, hp] at h
  obtain ⟨⟨readable, f⟩, hcheck, rfl⟩ := Outcome.map_eq_ok.1 h
  obtain ⟨image, himage, h⟩ := Outcome.bind_eq_ok.1 hcheck
  refine ⟨image, himage, fun x => ?_⟩
  have hempty := Findings.not_holds_empty x
  cases image with
  | none =>
    obtain ⟨-, rfl⟩ := Prod.mk.inj (Except.ok.inj h)
    simp only [Findings.holds_report, Findings.holds_refer, hempty, false_or]
    refine or_congr_right ⟨?_, ?_⟩
    · rintro rfl
      exact .unreadable
    · rintro ⟨⟩
      rfl
  | some image =>
    obtain ⟨-, rfl⟩ := Prod.mk.inj (Except.ok.inj h)
    simp only [Findings.holds_reportIf, Findings.holds_load, Findings.holds_refer, hempty, false_or,
      or_assoc, Bool.not_eq_true', Bool.and_eq_true, decide_eq_true_eq]
    refine or_congr_right ⟨?_, ?_⟩
    · rintro (rfl | ⟨hvalid, rfl⟩ | ⟨⟨hkey, hne⟩, rfl⟩)
      · exact .loaded
      · exact .unsigned hvalid
      · exact .otherKey hkey hne
    · rintro (⟨⟩ | ⟨⟩ | ⟨hvalid⟩ | ⟨hkey, hne⟩)
      · exact .inl rfl
      · exact .inr (.inl ⟨hvalid, rfl⟩)
      · exact .inr (.inr ⟨⟨hkey, hne⟩, rfl⟩)

/-- What entering a partition adds, and the descriptors that come next. -/
theorem holds_enter {name : String} {f f' : Findings} {next : List Pending}
    (h : v.enter store name f = .ok (next, f')) :
    ∃ image, store.image v.suite name = .ok image ∧ next = image.elim [] (Pending.ofImage name) ∧
      ∀ x, f'.Holds x ↔ f.Holds x ∨ EnterFinds name image x := by
  obtain ⟨image, himage, h⟩ := Outcome.bind_eq_ok.1 h
  refine ⟨image, himage, ?_⟩
  cases image with
  | none =>
    obtain ⟨rfl, rfl⟩ := Prod.mk.inj (Except.ok.inj h)
    refine ⟨rfl, fun x => ?_⟩
    rw [Findings.holds_report]
    refine or_congr_right ⟨?_, ?_⟩
    · rintro rfl
      exact .unreadable
    · rintro ⟨⟩
      rfl
  | some image =>
    obtain ⟨rfl, rfl⟩ := Prod.mk.inj (Except.ok.inj h)
    refine ⟨rfl, fun x => ?_⟩
    simp only [Findings.holds_reportIf, Findings.holds_load, or_assoc, Bool.and_eq_true,
      Bool.not_eq_true']
    refine or_congr_right ⟨?_, ?_⟩
    · rintro (rfl | ⟨⟨hkey, hvalid⟩, rfl⟩)
      · exact .loaded
      · exact .unsigned hkey hvalid
    · rintro (⟨⟩ | ⟨⟩ | ⟨hkey, hvalid⟩)
      · exact .inl rfl
      · exact .inr ⟨⟨hkey, hvalid⟩, rfl⟩

/-- A hash descriptor gives what its measurement finds if there is no footer. -/
theorem hashFinds_of_bare {p : Pending} {d : HashDescriptor} {info : Option PartitionInfo}
    {m : Option Measurement} (hinfo : store.info d.partitionName = .ok info)
    (hfooter : info.bind (·.footer) = none)
    (hm : Measurement.take v.suite store v.chunkSize d d.imageSize = .ok m) (x : Finding) :
    HashFinds v store p d x ↔ MeasureFinds p.holder p.index d m x := by
  constructor
  · intro h
    cases h with
    | bare _ _ hm' hx =>
      obtain rfl := Outcome.ok_unique hm hm'
      exact hx
    -- All other findings need a footer.
    | unreadable hinfo' hfooter' _ | loaded hinfo' hfooter' _ | missing hinfo' hfooter' _ _
    | embedded hinfo' hfooter' _ _ _ _ | outer hinfo' hfooter' _ _ _ _ _ =>
      obtain rfl := Outcome.ok_unique hinfo hinfo'
      exact absurd (hfooter.symm.trans hfooter') (by simp)
  · exact .bare hinfo hfooter hm

/-- A hash descriptor of a partition with a footer needs an image there. -/
theorem hashFinds_of_unreadable {p : Pending} {d : HashDescriptor} {info : Option PartitionInfo}
    {footer : Footer} (hinfo : store.info d.partitionName = .ok info)
    (hfooter : info.bind (·.footer) = some footer)
    (himage : store.image v.suite d.partitionName = .ok none) (x : Finding) :
    HashFinds v store p d x ↔ x = .issue (.invalidPartitionData d.partitionName) := by
  constructor
  · intro h
    cases h with
    | bare hinfo' hfooter' _ _ =>
      obtain rfl := Outcome.ok_unique hinfo hinfo'
      exact absurd (hfooter.symm.trans hfooter') (by simp)
    | unreadable => rfl
    | loaded _ _ himage' | missing _ _ himage' _ | embedded _ _ himage' _ _ _
    | outer _ _ himage' _ _ _ _ => exact absurd (himage.symm.trans himage') (by simp)
  · rintro rfl
    exact .unreadable hinfo hfooter himage

/-- A hash descriptor of a partition with a footer needs a hash in the image there. -/
theorem hashFinds_of_missing {p : Pending} {d : HashDescriptor} {info : Option PartitionInfo}
    {footer : Footer} {image : Image} (hinfo : store.info d.partitionName = .ok info)
    (hfooter : info.bind (·.footer) = some footer)
    (himage : store.image v.suite d.partitionName = .ok (some image))
    (hlast : lastHash? image d.partitionName = none) (x : Finding) :
    HashFinds v store p d x ↔
      x = .loaded d.partitionName ∨ x = .issue (.invalidPartitionData d.partitionName) := by
  constructor
  · intro h
    cases h with
    | bare hinfo' hfooter' _ _ =>
      obtain rfl := Outcome.ok_unique hinfo hinfo'
      exact absurd (hfooter.symm.trans hfooter') (by simp)
    | unreadable _ _ himage' => exact absurd (himage.symm.trans himage') (by simp)
    | loaded => exact .inl rfl
    | missing => exact .inr rfl
    | embedded _ _ himage' hlast' _ _ | outer _ _ himage' hlast' _ _ _ =>
      obtain rfl := Outcome.ok_some_unique himage himage'
      exact absurd (hlast.symm.trans hlast') (by simp)
  · rintro (rfl | rfl)
    · exact .loaded hinfo hfooter himage
    · exact .missing hinfo hfooter himage hlast

/-- A hash descriptor of a partition with a footer is checked after the hash in the image there. -/
theorem hashFinds_of_embedded {p : Pending} {d e : HashDescriptor} {info : Option PartitionInfo}
    {footer : Footer} {image : Image} {index : Nat} {m : Option Measurement}
    (hinfo : store.info d.partitionName = .ok info)
    (hfooter : info.bind (·.footer) = some footer)
    (himage : store.image v.suite d.partitionName = .ok (some image))
    (hlast : lastHash? image d.partitionName = some (index, e))
    (hm : Measurement.take v.suite store v.chunkSize e footer.originalImageSize = .ok m)
    (x : Finding) :
    HashFinds v store p d x ↔ x = .loaded d.partitionName ∨
      MeasureFinds d.partitionName index e m x ∨ (m.isSome ∧ ∃ m',
        Measurement.take v.suite store v.chunkSize d footer.originalImageSize = .ok m' ∧
        MeasureFinds p.holder p.index d m' x) := by
  constructor
  · intro h
    cases h with
    | bare hinfo' hfooter' _ _ =>
      obtain rfl := Outcome.ok_unique hinfo hinfo'
      exact absurd (hfooter.symm.trans hfooter') (by simp)
    | unreadable _ _ himage' => exact absurd (himage.symm.trans himage') (by simp)
    | loaded => exact .inl rfl
    | missing _ _ himage' hlast' =>
      obtain rfl := Outcome.ok_some_unique himage himage'
      exact absurd (hlast.symm.trans hlast') (by simp)
    -- What was looked up for the finding is what was looked up for the statement.
    | embedded hinfo' hfooter' himage' hlast' hm' hx =>
      obtain rfl := Outcome.ok_unique hinfo hinfo'
      obtain rfl := Option.some.inj (hfooter.symm.trans hfooter')
      obtain rfl := Outcome.ok_some_unique himage himage'
      obtain ⟨rfl, rfl⟩ := Prod.mk.inj (Option.some.inj (hlast.symm.trans hlast'))
      obtain rfl := Outcome.ok_unique hm hm'
      exact .inr (.inl hx)
    | outer hinfo' hfooter' himage' hlast' hm' houter hx =>
      obtain rfl := Outcome.ok_unique hinfo hinfo'
      obtain rfl := Option.some.inj (hfooter.symm.trans hfooter')
      obtain rfl := Outcome.ok_some_unique himage himage'
      obtain ⟨rfl, rfl⟩ := Prod.mk.inj (Option.some.inj (hlast.symm.trans hlast'))
      obtain rfl := Outcome.ok_unique hm hm'
      exact .inr (.inr ⟨rfl, _, houter, hx⟩)
  · rintro (rfl | hx | ⟨hsome, m', houter, hx⟩)
    · exact .loaded hinfo hfooter himage
    · exact .embedded hinfo hfooter himage hlast hm hx
    · obtain ⟨taken, rfl⟩ := Option.isSome_iff_exists.1 hsome
      exact .outer hinfo hfooter himage hlast hm houter hx

/-- What a hash descriptor gives. -/
theorem holds_inspect_hash {p : Pending} {d : HashDescriptor} {g : Findings}
    (hp : p.descriptor = .hash d) (h : v.inspect store p = .ok g) (x : Finding) :
    g.Holds x ↔
      x = .reference ⟨d.partitionName, p.holder, p.index⟩ ∨ HashFinds v store p d x := by
  have hempty := Findings.not_holds_empty x
  rw [inspect, hp] at h
  obtain ⟨info, hinfo, h₁⟩ := Outcome.bind_eq_ok.1 h
  cases hfooter : info.bind (·.footer) with
  | none =>
    simp only [hfooter] at h₁
    obtain ⟨⟨checked, f⟩, hcheck, h₂⟩ := Outcome.bind_eq_ok.1 h₁
    obtain rfl := Except.ok.inj h₂
    obtain ⟨m, hm, -, hholds⟩ := holds_checkHash hcheck
    rw [hholds, Findings.holds_refer, hashFinds_of_bare hinfo hfooter hm]
    simp only [hempty, false_or]
  | some footer =>
    simp only [hfooter] at h₁
    obtain ⟨image, himage, h₂⟩ := Outcome.bind_eq_ok.1 h₁
    cases image with
    | none =>
      obtain rfl := Except.ok.inj h₂
      rw [hashFinds_of_unreadable hinfo hfooter himage, Findings.holds_report,
        Findings.holds_refer]
      simp only [hempty, false_or]
    | some image =>
      cases hlast : lastHash? image d.partitionName with
      | none =>
        simp only [hlast] at h₂
        obtain rfl := Except.ok.inj h₂
        rw [hashFinds_of_missing hinfo hfooter himage hlast, Findings.holds_report,
          Findings.holds_load, Findings.holds_refer]
        simp only [hempty, false_or, or_assoc]
      | some found =>
        obtain ⟨index, e⟩ := found
        simp only [hlast] at h₂
        obtain ⟨⟨checked, f⟩, hcheck, h₃⟩ := Outcome.bind_eq_ok.1 h₂
        obtain ⟨m, hm, hchecked, hholds⟩ := holds_checkHash hcheck
        rw [hashFinds_of_embedded hinfo hfooter himage hlast hm]
        have hf : f.Holds x ↔ x = .reference ⟨d.partitionName, p.holder, p.index⟩ ∨
            x = .loaded d.partitionName ∨ MeasureFinds d.partitionName index e m x := by
          rw [hholds, Findings.holds_load, Findings.holds_refer]
          simp only [hempty, false_or, or_assoc]
        -- The outer hash is not measured if nobody knows the digest of the inner one.
        cases m with
        | none =>
          subst hchecked
          obtain rfl := Except.ok.inj h₃
          rw [hf]
          simp
        | some m =>
          subst hchecked
          obtain ⟨⟨checked, f'⟩, hcheck', h₄⟩ := Outcome.bind_eq_ok.1 h₃
          obtain rfl := Except.ok.inj h₄
          obtain ⟨m', hm', -, hholds'⟩ := holds_checkHash hcheck'
          rw [hholds', hf]
          have houter : (∃ m'', Measurement.take v.suite store v.chunkSize d
              footer.originalImageSize = .ok m'' ∧ MeasureFinds p.holder p.index d m'' x) ↔
              MeasureFinds p.holder p.index d m' x := by
            constructor
            · rintro ⟨m'', hm'', hx⟩
              obtain rfl := Outcome.ok_unique hm' hm''
              exact hx
            · exact fun hx => ⟨m', hm', hx⟩
          simp only [houter, Option.isSome_some, true_and, or_assoc]

/-- To measure is to take a measurement. -/
theorem exists_checkHash {holder : String} {index : Nat} {d : HashDescriptor} {size : Int}
    {m : Option Measurement} (h : Measurement.take v.suite store v.chunkSize d size = .ok m)
    (f : Findings) : ∃ f', v.checkHash store holder index d size f = .ok (m.isSome, f') := by
  unfold checkHash
  rw [h]
  cases m <;> exact ⟨_, rfl⟩

/-- A descriptor that is neither a hash nor a chain can be checked, and finds nothing. -/
theorem inspect_other {p : Pending} (hhash : ∀ d, p.descriptor ≠ .hash d)
    (hchain : ∀ d, p.descriptor ≠ .chain d) : v.inspect store p = .ok Findings.empty := by
  unfold inspect
  split
  · next d hd => exact absurd hd (hhash d)
  · next d hd => exact absurd hd (hchain d)
  · rfl

/-- A descriptor that names no partition can be checked, and finds nothing. -/
theorem inspect_of_target?_eq_none {p : Pending} (h : p.descriptor.target? = none) :
    v.inspect store p = .ok Findings.empty := by
  apply inspect_other
  · intro d hd
    simp [hd, Descriptor.target?] at h
  · intro d hd
    simp [hd, Descriptor.target?] at h

theorem not_holds_inspect {p : Pending} {g : Findings} (h : p.descriptor.target? = none)
    (hg : v.inspect store p = .ok g) (x : Finding) : ¬g.Holds x := by
  obtain rfl := Outcome.ok_unique hg (inspect_of_target?_eq_none h)
  exact Findings.not_holds_empty x

/-- A chain descriptor can be checked if there is a partition. -/
theorem exists_inspect_chain {p : Pending} {d : ChainDescriptor} (hp : p.descriptor = .chain d) :
    (∃ g, v.inspect store p = .ok g) ↔
      ∃ image, store.image v.suite d.partitionName = .ok image := by
  constructor
  · rintro ⟨g, hg⟩
    obtain ⟨image, himage, -⟩ := holds_inspect_chain hp hg
    exact ⟨image, himage⟩
  · rintro ⟨image, himage⟩
    have hcheck : ∃ r, v.checkChainDescriptor store p d Findings.empty = .ok r := by
      unfold checkChainDescriptor
      cases image <;> exact ⟨_, Outcome.bind_eq_ok.2 ⟨_, himage, rfl⟩⟩
    obtain ⟨⟨readable, g⟩, hcheck⟩ := hcheck
    rw [inspect, hp]
    exact ⟨g, Outcome.map_eq_ok.2 ⟨_, hcheck, rfl⟩⟩

/-- What is measured for a hash descriptor, as far as it comes to it. -/
def Measurable (v : Verifier) (store : Store) (d : HashDescriptor)
    (info : Option PartitionInfo) : Prop :=
  match info.bind (·.footer) with
  | none => ∃ m, Measurement.take v.suite store v.chunkSize d d.imageSize = .ok m
  | some footer => ∃ image, store.image v.suite d.partitionName = .ok image ∧
    ∀ i index e, image = some i → lastHash? i d.partitionName = some (index, e) →
      ∃ m, Measurement.take v.suite store v.chunkSize e footer.originalImageSize = .ok m ∧
        (m.isSome → ∃ m',
          Measurement.take v.suite store v.chunkSize d footer.originalImageSize = .ok m')

theorem measurable_of_bare {d : HashDescriptor} {info : Option PartitionInfo}
    (h : info.bind (·.footer) = none) : Measurable v store d info ↔
      ∃ m, Measurement.take v.suite store v.chunkSize d d.imageSize = .ok m := by
  simp only [Measurable, h]

/-- With a footer the partition's own image is measured, for the last hash in the image there and
then for the descriptor. -/
theorem measurable_of_footed {d : HashDescriptor} {info : Option PartitionInfo} {footer : Footer}
    (h : info.bind (·.footer) = some footer) : Measurable v store d info ↔
      ∃ image, store.image v.suite d.partitionName = .ok image ∧
        ∀ i index e, image = some i → lastHash? i d.partitionName = some (index, e) →
          ∃ m, Measurement.take v.suite store v.chunkSize e footer.originalImageSize = .ok m ∧
            (m.isSome → ∃ m',
              Measurement.take v.suite store v.chunkSize d footer.originalImageSize = .ok m') := by
  simp only [Measurable, h]

/-- A hash descriptor that was checked could be measured. -/
theorem measurable_of_inspect {p : Pending} {d : HashDescriptor} {g : Findings}
    (hp : p.descriptor = .hash d) (h : v.inspect store p = .ok g) :
    ∃ info, store.info d.partitionName = .ok info ∧ Measurable v store d info := by
  rw [inspect, hp] at h
  obtain ⟨info, hinfo, h₁⟩ := Outcome.bind_eq_ok.1 h
  refine ⟨info, hinfo, ?_⟩
  cases hfooter : info.bind (·.footer) with
  | none =>
    simp only [hfooter] at h₁
    obtain ⟨⟨checked, f⟩, hcheck, -⟩ := Outcome.bind_eq_ok.1 h₁
    obtain ⟨m, hm, -⟩ := holds_checkHash hcheck
    exact (measurable_of_bare hfooter).2 ⟨m, hm⟩
  | some footer =>
    simp only [hfooter] at h₁
    obtain ⟨image, himage, h₂⟩ := Outcome.bind_eq_ok.1 h₁
    -- With a footer the embedded hash is measured, and the outer one if that had a digest.
    refine (measurable_of_footed hfooter).2 ⟨image, himage, fun i index e hi hlast => ?_⟩
    subst hi
    simp only [hlast] at h₂
    obtain ⟨⟨checked, f⟩, hcheck, h₃⟩ := Outcome.bind_eq_ok.1 h₂
    obtain ⟨m, hm, rfl, -⟩ := holds_checkHash hcheck
    refine ⟨m, hm, fun hsome => ?_⟩
    simp only [hsome, if_true] at h₃
    obtain ⟨⟨checked, f'⟩, hcheck', -⟩ := Outcome.bind_eq_ok.1 h₃
    obtain ⟨m', hm', -⟩ := holds_checkHash hcheck'
    exact ⟨m', hm'⟩

/-- A hash descriptor that can be measured can be checked. -/
theorem exists_inspect_of_measurable {p : Pending} {d : HashDescriptor}
    {info : Option PartitionInfo} (hp : p.descriptor = .hash d)
    (hinfo : store.info d.partitionName = .ok info) (h : Measurable v store d info) :
    ∃ g, v.inspect store p = .ok g := by
  rw [inspect, hp]
  unfold checkHashDescriptor
  simp only [hinfo, bind, Except.bind]
  cases hfooter : info.bind (·.footer) with
  | none =>
    obtain ⟨m, hm⟩ := (measurable_of_bare hfooter).1 h
    obtain ⟨f', hcheck⟩ := @exists_checkHash v store p.holder p.index d _ m hm
      (Findings.empty.refer p d.partitionName)
    rw [hcheck]
    exact ⟨f', rfl⟩
  | some footer =>
    obtain ⟨image, himage, hall⟩ := (measurable_of_footed hfooter).1 h
    simp only [himage]
    cases image with
    | none => exact ⟨_, rfl⟩
    | some i =>
      dsimp only
      cases hlast : lastHash? i d.partitionName with
      | none => exact ⟨_, rfl⟩
      | some found =>
        obtain ⟨index, e⟩ := found
        obtain ⟨m, hm, hsome⟩ := hall i index e rfl hlast
        obtain ⟨f', hcheck⟩ := @exists_checkHash v store d.partitionName index e _ m hm
          ((Findings.empty.refer p d.partitionName).load d.partitionName)
        simp only [hcheck]
        cases m with
        | none => exact ⟨f', rfl⟩
        | some m =>
          obtain ⟨m', hm'⟩ := hsome rfl
          obtain ⟨f'', hcheck'⟩ := @exists_checkHash v store p.holder p.index d _ m' hm' f'
          simp only [Option.isSome_some, if_true, hcheck']
          exact ⟨f'', rfl⟩

/-- The check of a hash for which there is a measurement. -/
theorem checkHash_of_take {holder : String} {index : Nat} {d : HashDescriptor} {size : Int}
    {m : Measurement} (h : Measurement.take v.suite store v.chunkSize d size = .ok (some m))
    (f : Findings) : v.checkHash store holder index d size f =
      .ok (true, f.reportIf (!m.agrees d) (.hashMismatch holder index m.size m.digest)) :=
  Outcome.bind_eq_ok.2 ⟨_, h, rfl⟩

/-- The check of a hash of a partition without a footer, which does not agree with what is
measured. -/
theorem checkHashDescriptor_of_bare {p : Pending} {f : Findings} {contents : Bytes}
    {d : HashDescriptor} {m : Measurement} (hcontents : store.open? d.partitionName = .ok contents)
    (hbare : (PartitionInfo.probe contents).bind (·.footer) = none)
    (htake : Measurement.take v.suite store v.chunkSize d d.imageSize = .ok (some m))
    (hagrees : m.agrees d = false) :
    v.checkHashDescriptor store p d f = .ok ((f.refer p d.partitionName).report
      (.hashMismatch p.holder p.index m.size m.digest)) := by
  refine Outcome.bind_eq_ok.2 ⟨_, Outcome.bind_eq_ok.2 ⟨contents, hcontents, rfl⟩, ?_⟩
  rw [hbare]
  refine Outcome.bind_eq_ok.2 ⟨_, checkHash_of_take htake _, ?_⟩
  simp only [hagrees]
  rfl

/-- The check of a hash of a partition with a footer, whose image has a hash of it as well. Neither
agrees with what is measured. -/
theorem checkHashDescriptor_of_embedded {p : Pending} {f : Findings} {contents : Bytes}
    {d e : HashDescriptor} {footer : Footer} {image : Image} {index : Nat} {m m' : Measurement}
    (hcontents : store.open? d.partitionName = .ok contents)
    (hfooter : (PartitionInfo.probe contents).bind (·.footer) = some footer)
    (himage : store.image v.suite d.partitionName = .ok (some image))
    (hlast : lastHash? image d.partitionName = some (index, e))
    (hm : Measurement.take v.suite store v.chunkSize e footer.originalImageSize = .ok (some m))
    (hm' : Measurement.take v.suite store v.chunkSize d footer.originalImageSize = .ok (some m'))
    (hinner : m.agrees e = false) (houter : m'.agrees d = false) :
    v.checkHashDescriptor store p d f = .ok
      ((((f.refer p d.partitionName).load d.partitionName).report
        (.hashMismatch d.partitionName index m.size m.digest)).report
          (.hashMismatch p.holder p.index m'.size m'.digest)) := by
  refine Outcome.bind_eq_ok.2 ⟨_, Outcome.bind_eq_ok.2 ⟨contents, hcontents, rfl⟩, ?_⟩
  rw [hfooter]
  refine Outcome.bind_eq_ok.2 ⟨_, himage, ?_⟩
  simp only [hlast]
  refine Outcome.bind_eq_ok.2 ⟨_, checkHash_of_take hm _, ?_⟩
  refine Outcome.bind_eq_ok.2 ⟨_, checkHash_of_take hm' _, ?_⟩
  simp only [hinner, houter]
  rfl

end Verifier

end VerifiedBoot
