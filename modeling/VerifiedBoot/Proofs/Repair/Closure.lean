import VerifiedBoot.Proofs.Repair.Start

/-!
# What a repair has to change

The partitions that a repair has to change are those that issues name, and with each image that has
to get a new key the ones whose chain descriptors name it. An image has to get a new key if it is to
be signed and there is no pair at hand for its own key.

`Repair.Grounded` is what a repair relies on: whatever a verification found is about records that
are there, and keys have sizes that images can be signed with.
-/

namespace VerifiedBoot

/-- Whether images can be signed with keys of this size. -/
def PublicKey.Standard (key : PublicKey) : Prop :=
  ∃ size : KeySize, key.bits = size.bits

theorem Algorithm.exists_forKeyBits (current : Algorithm) (size : KeySize) :
    ∃ algorithm, current.forKeyBits size.bits = .ok algorithm := by
  rcases current with _ | ⟨_ | _, _⟩
  all_goals cases size
  all_goals exact ⟨_, rfl⟩

/-- A pair from a supply of fresh keys has the size that was asked for. -/
theorem KeyPair.bits_of_fresh {supply : List Rsa.Key} {size : KeySize} {pair : KeyPair}
    (h : KeyPair.fresh supply size.bits = .ok pair) : pair.bits = size.bits := by
  obtain ⟨key, -, hbits, hmade⟩ := KeyPair.fresh_eq_ok h
  obtain ⟨rfl, hpublic⟩ := KeyPair.ofKey_eq_ok hmade
  rw [Rsa.Key.modulusBits] at hbits
  rw [KeyPair.bits, PublicKey.bits, PublicKey.modulus_of_ofNumbers hpublic, hbits]
  cases size <;> decide

namespace Repair

section Sets

variable (means : Means) (found : Verification)

/-- Whether a chain descriptor in the image of one partition was found to refer to another. -/
def Chains (holder name : String) : Prop :=
  ∃ (i : Nat) (first : Record) (d : ChainDescriptor), ⟨name, holder, i⟩ ∈ found.references ∧
    found.records.lookup holder = some first ∧ first.image.descriptors[i]? = some (.chain d)

/-- Whether the image of another partition has a chain descriptor of it. -/
def Chained (name : String) : Prop :=
  ∃ holder, holder ≠ name ∧ Chains found holder name

/-- Whether an image is to be signed, if at all, with a new key: it embeds a key or has to be
signed, and no pair of the keyring has its key. -/
def NeedsKey (name : String) : Prop :=
  ∃ first, found.records.lookup name = some first ∧
    (first.image.publicKey.isSome ∨ .invalidSignature name ∈ found.issues) ∧
    ∀ pair ∈ means.keyring, first.image.publicKey ≠ some pair.publicKey

/-- The partitions that have to change: the least set that holds those that issues name, and with
one that needs a key all others that have a chain descriptor of it. -/
inductive Affected : String → Prop
  | issue {issue : Issue} {name : String} : issue ∈ found.issues → issue.partition? = some name →
    Affected name
  | holder {p q : String} : Affected q → NeedsKey means found q → p ≠ q → Chains found p q →
    Affected p

/-- The partitions whose images get a new key. -/
def Rekeyed (name : String) : Prop :=
  Affected means found name ∧ NeedsKey means found name

/-- The issues that a step can mend: there is a record with what they are about. -/
inductive Mendable : Issue → Prop
  | hash {name : String} {i : Nat} {size : Int} {digest : Bytes} {first : Record}
    {d : HashDescriptor} : found.records.lookup name = some first →
    first.image.descriptors[i]? = some (.hash d) → Mendable (.hashMismatch name i size digest)
  | chain {name : String} {i : Nat} {key : Option PublicKey} {first : Record}
    {d : ChainDescriptor} : found.records.lookup name = some first →
    first.image.descriptors[i]? = some (.chain d) → (∀ k, key = some k → k.Standard) →
    Mendable (.publicKeyMismatch name i key)
  | signature {name : String} {first : Record} : found.records.lookup name = some first →
    (first.image.publicKey.isSome ∨ .invalidSignature name ∈ found.issues) →
    Mendable (.invalidSignature name)

/-- What a repair relies on. -/
structure Grounded : Prop where
  mendable : ∀ issue ∈ found.issues, Mendable found issue
  /-- References count from the start of an image. -/
  index : ∀ r ∈ found.references, ∃ i : Nat, r.index = i
  algorithm : ∀ {name first}, found.records.lookup name = some first →
    ∃ algorithm, first.image.algorithm = .ok algorithm
  embedded : ∀ {name first key}, found.records.lookup name = some first →
    first.image.publicKey = some key → key.Standard
  declared : ∀ {name first d key}, found.records.lookup name = some first →
    .chain d ∈ first.image.descriptors → d.publicKey = some key → key.Standard
  /-- A pair of each size can be made, and no image embeds its key yet. -/
  fresh : ∀ size : KeySize, ∃ pair, means.generate size.bits = .ok pair ∧ pair.bits = size.bits ∧
    ∀ {name first}, found.records.lookup name = some first →
      first.image.publicKey ≠ some pair.publicKey

variable {means found}

/-- There is a record of what an issue is about that can be mended. -/
theorem Mendable.exists_record {issue : Issue} {name : String} (h : Mendable found issue)
    (hname : issue.partition? = some name) :
    ∃ first, found.records.lookup name = some first := by
  cases h with
  | hash hfirst | chain hfirst | signature hfirst =>
    obtain rfl := Option.some.inj hname
    exact ⟨_, hfirst⟩

/-- There is a record of everything that has to change. -/
theorem Affected.exists_record {name : String} (h : Affected means found name)
    (hg : Grounded means found) : ∃ first, found.records.lookup name = some first := by
  cases h with
  | issue hissue hname => exact (hg.mendable _ hissue).exists_record hname
  | holder _ _ _ hchains =>
    obtain ⟨_, first, _, -, hfirst, -⟩ := hchains
    exact ⟨first, hfirst⟩

end Sets

end Repair

namespace Verifier

open Repair

variable {v : Verifier} {store : Store} {root : String} {found : Verification}

/-- An image whose signature was reported was read. -/
theorem exists_record_of_invalidSignature (h : v.verify store root = .ok found) {name : String}
    (hmem : .invalidSignature name ∈ found.issues) :
    ∃ first, found.records.lookup name = some first := by
  obtain ⟨-, -, hissues, -⟩ := verify_eq_ok h
  rcases entered_or_chained ((hissues _).1 hmem) nofun nofun with ⟨image, himage, hfinds⟩ |
    ⟨q, d, image, hvisits, hq, himage, hfinds⟩
  · cases hfinds with
    | unsigned =>
      obtain ⟨first, hfirst, -⟩ := exists_record h (.enter himage .loaded) himage
      exact ⟨first, hfirst⟩
  · cases hfinds with
    | unsigned =>
      obtain ⟨g, hg, hfound⟩ := inspect_of_visits h hvisits
      obtain ⟨image', himage', hholds⟩ := holds_inspect_chain hq hg
      obtain rfl := Outcome.ok_unique himage himage'
      obtain ⟨first, hfirst, -⟩ :=
        exists_record h (hfound _ ((hholds _).2 (.inr .loaded))) himage
      exact ⟨first, hfirst⟩

/-- Nothing is reported that is not of a known kind. -/
theorem other_notMem_issues (h : v.verify store root = .ok found) (label : String) (serial : Nat) :
    .other label serial ∉ found.issues := by
  intro hmem
  obtain ⟨-, -, hissues, -⟩ := verify_eq_ok h
  rcases entered_or_chained ((hissues _).1 hmem) nofun nofun with ⟨image, -, hfinds⟩ |
    ⟨q, d, image, -, -, -, hfinds⟩
  · cases hfinds
  · cases hfinds

/-- A key that was reported is embedded in an image that was read. -/
theorem embedded_of_mismatch (h : v.verify store root = .ok found)
    (hvalid : ∀ name, .invalidPartitionData name ∉ found.issues) {p : String} {index : Int}
    {key : Option PublicKey} (hmem : .publicKeyMismatch p index key ∈ found.issues) :
    ∃ (i : Nat) (holder : Record) (d : ChainDescriptor) (t : String) (target : Record), index = i ∧
      found.records.lookup p = some holder ∧ holder.image.descriptors[i]? = some (.chain d) ∧
      found.records.lookup t = some target ∧ target.image.publicKey = key := by
  obtain ⟨i, t, target, -, hindex, ⟨image, d, hreach, himage, hd, rfl⟩, htarget, hkey, -⟩ :=
    chained_of_mismatch h hmem
  obtain ⟨holder, hholder, rfl⟩ := exists_record h (loaded_of_reach h hreach himage) himage
  obtain ⟨target', htarget', hfinds⟩ := target_of_chain h hvalid hreach himage hd
  obtain rfl := Outcome.ok_some_unique htarget htarget'
  obtain ⟨first, hfirst, rfl⟩ := exists_record h (hfinds _ .loaded) htarget
  exact ⟨i, holder, d, d.partitionName, first, hindex, hholder, hd, hfirst, hkey⟩

/-- The header of an image that was read names an algorithm. -/
theorem algorithm_of_record (h : v.verify store root = .ok found) {name : String} {first : Record}
    (hfirst : found.records.lookup name = some first) :
    ∃ algorithm, first.image.algorithm = .ok algorithm := by
  obtain ⟨data, -, hread⟩ := Store.image_eq_ok.1 (image_of_record h hfirst)
  obtain ⟨info, -, hparse⟩ := PartitionInfo.readImage_eq_some.1 hread
  obtain ⟨b, slice, hblocks, hheader, -⟩ := Image.parse_eq_ok hparse
  obtain ⟨hdecode, -⟩ := Image.blocks_eq_ok.1 hblocks
  rw [Image.algorithm, hheader]
  exact (Header.decode_eq_ok.1 hdecode).2.2.2

/-- What a verification found without invalid data is a ground to repair on. -/
theorem grounded (h : v.verify store root = .ok found)
    (hvalid : ∀ name, .invalidPartitionData name ∉ found.issues) {means : Means}
    (hembedded : ∀ name first key, found.records.lookup name = some first →
      first.image.publicKey = some key → key.Standard)
    (hdeclared : ∀ name first d key, found.records.lookup name = some first →
      .chain d ∈ first.image.descriptors → d.publicKey = some key → key.Standard)
    (hfresh : ∀ size : KeySize, ∃ pair, means.generate size.bits = .ok pair ∧
      pair.bits = size.bits ∧ ∀ name first, found.records.lookup name = some first →
        first.image.publicKey ≠ some pair.publicKey) :
    Grounded means found where
  mendable issue hmem := by
    -- Each issue comes with the descriptor or the image that it was reported for.
    cases issue with
    | hashMismatch p index size digest =>
      obtain ⟨i, m, rfl, rfl, rfl, first, d, hfirst, hd, -⟩ := measured_of_mismatch h hmem
      exact .hash hfirst hd
    | publicKeyMismatch p index key =>
      obtain ⟨i, holder, d, t, target, rfl, hholder, hd, htarget, hkey⟩ :=
        embedded_of_mismatch h hvalid hmem
      exact .chain hholder hd fun k hk => hembedded t target k htarget (hkey.trans hk)
    | invalidSignature name =>
      obtain ⟨first, hfirst⟩ := exists_record_of_invalidSignature h hmem
      exact .signature hfirst (.inr hmem)
    | invalidPartitionData name => exact absurd hmem (hvalid name)
    | other label serial => exact absurd hmem (other_notMem_issues h label serial)
  index r hr := by
    obtain ⟨q, t, -, -, rfl⟩ := (mem_references_iff h).1 hr
    exact ⟨q.index, rfl⟩
  algorithm := algorithm_of_record h
  embedded := hembedded _ _ _
  declared := hdeclared _ _ _ _
  fresh size := by
    obtain ⟨pair, hpair, hbits, hnew⟩ := hfresh size
    exact ⟨pair, hpair, hbits, hnew _ _⟩

end Verifier

end VerifiedBoot
