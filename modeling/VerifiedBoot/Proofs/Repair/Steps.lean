import VerifiedBoot.Proofs.Repair.Frame
import VerifiedBoot.Repair.Basic

/-!
# What one step of a repair does

Every step changes the image of a single partition and notes that it has to be written. `Edited`
says so; what a step does to the queue and to the generated pairs is said beside it. The lemmas here
take each step apart once, and nothing later unfolds one.
-/

namespace VerifiedBoot

namespace Findings

variable {α : Type} [DecidableEq α]

/-- What is noted one after the other is there, beside what was there before. -/
theorem mem_foldl_noteIn {xs a : List α} {y : α} : y ∈ xs.foldl noteIn a ↔ y ∈ a ∨ y ∈ xs := by
  induction xs generalizing a with
  | nil => simp
  | cons x xs ih => rw [List.foldl_cons, ih, mem_noteIn, List.mem_cons, or_assoc]

/-- Nothing is noted twice. -/
theorem nodup_noteIn {a : List α} (h : a.Nodup) (x : α) : (noteIn a x).Nodup := by
  unfold noteIn
  split
  · exact h
  · next hx =>
    refine List.nodup_append.2 ⟨h, List.pairwise_singleton _ x, fun y hy z hz => ?_⟩
    rintro rfl
    obtain rfl := List.mem_singleton.1 hz
    exact hx hy

theorem nodup_foldl_noteIn {a : List α} (h : a.Nodup) (xs : List α) :
    (xs.foldl noteIn a).Nodup := by
  induction xs generalizing a with
  | nil => exact h
  | cons x xs ih => exact ih (nodup_noteIn h x)

end Findings

namespace Repair

namespace State

/-- The pair that is to sign the image of a partition, as far as it is settled. -/
def signer (s : State) (name : String) : Option KeyPair :=
  (s.changed.lookup name).join

/-- A step gives a partition a new image and settles which pair signs it. -/
structure Edited (s s' : State) (name : String) (record : Record) (image : Image)
    (pair : Option KeyPair) : Prop where
  before : s.records.lookup name = some record
  after : s'.records.lookup name = some { record with image }
  others : ∀ other, other ≠ name → s'.records.lookup other = s.records.lookup other
  changed : s'.changed = Entries.assign s.changed name pair
  references : s'.references = s.references

theorem add_eq (s : State) (issue : Issue) :
    s.add issue = { s with queue := Findings.noteIn s.queue issue } := by
  unfold add Findings.noteIn
  split <;> rfl

theorem foldl_add (issues : List Issue) (s : State) :
    issues.foldl add s = { s with queue := issues.foldl Findings.noteIn s.queue } := by
  induction issues generalizing s with
  | nil => rfl
  | cons issue rest ih => rw [List.foldl_cons, ih, add_eq, List.foldl_cons]

/-- A record that is there is found. -/
theorem record_eq_ok {s : State} {name : String} {record : Record} :
    s.record name = .ok record ↔ s.records.lookup name = some record := by
  unfold State.record
  cases s.records.lookup name with
  | none => exact ⟨nofun, nofun⟩
  | some found => exact ⟨fun h => congrArg some (Except.ok.inj h),
      fun h => congrArg Except.ok (Option.some.inj h)⟩

variable {s s' : State} {name : String}

/-- The queue after the signature of an image was put into question. -/
def requeue (s : State) (name : String) (record : Record) : List Issue :=
  if s.signer name = none ∧ record.image.publicKey.isSome then
    Findings.noteIn s.queue (.invalidSignature name)
  else s.queue

/-- To touch an image is to note it as changed, and to put its signature into question unless a pair
is settled or there is no key. -/
theorem touch_eq_ok (h : s.touch name = .ok s') :
    ∃ record, s.records.lookup name = some record ∧ s'.records = s.records ∧
      s'.changed = Entries.assign s.changed name (s.signer name) ∧
      s'.references = s.references ∧ s'.generated = s.generated ∧
      s'.queue = s.requeue name record := by
  obtain ⟨record, hrecord, h₁⟩ := Outcome.bind_eq_ok.1 h
  refine ⟨record, record_eq_ok.1 hrecord, ?_⟩
  unfold requeue signer
  split at h₁
  · next pair hpair =>
    obtain rfl := Except.ok.inj h₁
    rw [hpair]
    exact ⟨rfl, rfl, rfl, rfl, rfl⟩
  · next hunsettled =>
    -- Not noted as changed, and noted without a pair, come to the same.
    have hnone : (s.changed.lookup name).join = none := by
      cases hlookup : s.changed.lookup name with
      | none => rfl
      | some pair =>
        cases pair with
        | none => rfl
        | some pair => exact absurd hlookup (hunsettled pair)
    obtain rfl := Except.ok.inj h₁
    rw [hnone]
    by_cases hkey : record.image.publicKey.isSome = true
    · rw [if_pos hkey, if_pos ⟨rfl, hkey⟩, add_eq]
      exact ⟨rfl, rfl, rfl, rfl, rfl⟩
    · rw [if_neg hkey, if_neg fun hboth => hkey hboth.2]
      exact ⟨rfl, rfl, rfl, rfl, rfl⟩

/-- The record of a partition and its descriptor of a kind are what they are looked up as, whatever
number the index is. -/
theorem descriptorAt_of_descriptorOf {index : Int} {kind : DescriptorKind} {record : Record}
    {d : Descriptor} (h : s.descriptorOf name index kind = .ok (record, d)) :
    s.records.lookup name = some record ∧ record.image.descriptorAt index = .ok d ∧
      d.kind = kind := by
  obtain ⟨found, hfound, h₁⟩ := Outcome.bind_eq_ok.1 h
  obtain ⟨-, h₂⟩ := Outcome.guard_eq_ok.1 h₁
  obtain ⟨d', hd', h₃⟩ := Outcome.bind_eq_ok.1 h₂
  obtain ⟨hkind, h₄⟩ := Outcome.guard_eq_ok.1 h₃
  obtain ⟨rfl, rfl⟩ := Prod.mk.inj (Except.ok.inj h₄)
  exact ⟨record_eq_ok.1 hfound, hd', not_not.1 hkind⟩

theorem descriptorOf_eq_ok {i : Nat} {kind : DescriptorKind} {record : Record} {d : Descriptor}
    (h : s.descriptorOf name i kind = .ok (record, d)) :
    s.records.lookup name = some record ∧ record.image.descriptors[i]? = some d ∧
      d.kind = kind := by
  obtain ⟨hrecord, hd, hkind⟩ := descriptorAt_of_descriptorOf h
  exact ⟨hrecord, Image.descriptorAt_natCast.1 hd, hkind⟩

/-- To replace a descriptor and touch its image is a step. -/
theorem edited_of_touch {record : Record} {i : Nat} {d : Descriptor}
    (hrecord : s.records.lookup name = some record)
    (h : (s.setImage name record (record.image.setDescriptor i d)).touch name = .ok s') :
    Edited s s' name record { record.image with descriptors := record.image.descriptors.set i d }
        (s.signer name) ∧
      s'.generated = s.generated ∧ s'.queue = s.requeue name record := by
  obtain ⟨touched, htouched, hrecords, hchanged, hreferences, hgenerated, hqueue⟩ := touch_eq_ok h
  rw [Image.setDescriptor_natCast] at htouched hrecords hqueue
  unfold setImage at htouched hrecords hqueue
  dsimp only at htouched hrecords hqueue
  rw [Entries.lookup_assign_self] at htouched
  obtain rfl := Option.some.inj htouched
  refine ⟨⟨hrecord, ?_, fun other hother => ?_, hchanged, hreferences⟩, hgenerated, hqueue⟩
  · rw [hrecords, Entries.lookup_assign_self]
  · rw [hrecords, Entries.lookup_assign_of_ne hother]

/-- To mend a hash is to give it size and digest. -/
theorem mendHash_eq_ok {i : Nat} {size : Int} {digest : Bytes}
    (h : s.mendHash name i size digest = .ok s') :
    ∃ record d, record.image.descriptors[i]? = some (.hash d) ∧
      Edited s s' name record { record.image with
        descriptors := record.image.descriptors.set i (.hash { d with imageSize := size, digest }) }
        (s.signer name) ∧
      s'.generated = s.generated ∧ s'.queue = s.requeue name record := by
  obtain ⟨⟨record, d⟩, hof, h₁⟩ := Outcome.bind_eq_ok.1 h
  obtain ⟨hrecord, hd, hkind⟩ := descriptorOf_eq_ok hof
  cases d with
  | hash d => exact ⟨record, d, hd, edited_of_touch hrecord h₁⟩
  | property _ | hashtree _ | cmdline _ | chain _ | unknown _ => cases hkind

/-- To mend a chained partition is to give it a key. -/
theorem mendChain_eq_ok {i : Nat} {key : Option PublicKey}
    (h : s.mendChain name i key = .ok s') :
    ∃ record d, record.image.descriptors[i]? = some (.chain d) ∧
      Edited s s' name record { record.image with
        descriptors := record.image.descriptors.set i (.chain { d with publicKey := key }) }
        (s.signer name) ∧
      s'.generated = s.generated ∧ s'.queue = s.requeue name record := by
  obtain ⟨⟨record, d⟩, hof, h₁⟩ := Outcome.bind_eq_ok.1 h
  obtain ⟨hrecord, hd, hkind⟩ := descriptorOf_eq_ok hof
  cases d with
  | chain d => exact ⟨record, d, hd, edited_of_touch hrecord h₁⟩
  | property _ | hashtree _ | cmdline _ | hash _ | unknown _ => cases hkind

/-- The sizes of keys that an algorithm signs with are in range. -/
theorem inRange_of_bits {pair : KeyPair} {algorithm : Algorithm}
    (h : algorithm.keyBits = pair.bits) : pair.publicKey.InRange := by
  have hpos : 0 < pair.bits := PublicKey.bits_pos pair.publicKey
  rw [← h] at hpos
  change 8 ≤ pair.bits ∧ pair.bits < 1 <<< 31
  rw [← h]
  cases algorithm with
  | unsigned => exact absurd hpos (by decide)
  | signed digest key =>
    change 8 ≤ key.bits ∧ key.bits < 1 <<< 31
    cases key <;> decide

/-- The algorithm for another size of keys has this size, and keeps the digest if there is one. -/
theorem forKeyBits_eq_ok {current algorithm : Algorithm} {bits : Nat}
    (h : current.forKeyBits bits = .ok algorithm) :
    algorithm.keyBits = bits ∧ algorithm.digest? = some (current.digest?.getD .sha256) := by
  unfold Algorithm.forKeyBits at h
  simp only at h
  split at h
  · next found hfound =>
    obtain rfl := Except.ok.inj h
    have hboth := List.find?_some hfound
    rw [Bool.and_eq_true, decide_eq_true_iff, decide_eq_true_iff] at hboth
    exact ⟨Int.ofNat_inj.1 hboth.2, hboth.1⟩
  · cases h

/-- What signing with a pair does: the algorithm has the size of the key already, or it is replaced
by one that has. -/
theorem signWith_cases {pair : KeyPair} (h : s.signWith name pair = .ok s') :
    ∃ record algorithm, s.records.lookup name = some record ∧
      record.image.algorithm = .ok algorithm ∧
      (algorithm.keyBits = pair.bits ∧ s' = s.setChanged name (some pair) ∨
        algorithm.keyBits ≠ pair.bits ∧ ∃ other, algorithm.forKeyBits pair.bits = .ok other ∧
          s' = (s.setImage name record { record.image with
            header := { record.image.header with algorithmType := other.code } }).setChanged name
              (some pair)) := by
  obtain ⟨record, hrecord, h₁⟩ := Outcome.bind_eq_ok.1 h
  obtain ⟨algorithm, halgorithm, h₂⟩ := Outcome.bind_eq_ok.1 h₁
  refine ⟨record, algorithm, record_eq_ok.1 hrecord, halgorithm, ?_⟩
  split at h₂
  · next hbits => exact .inl ⟨hbits, (Except.ok.inj h₂).symm⟩
  · next hbits =>
    obtain ⟨other, hother, h₃⟩ := Outcome.bind_eq_ok.1 h₂
    exact .inr ⟨hbits, other, hother, (Except.ok.inj h₃).symm⟩

/-- To sign with a pair is a step that touches nothing of the image but its algorithm. -/
theorem signWith_eq_ok {pair : KeyPair} (h : s.signWith name pair = .ok s') :
    ∃ record header, Edited s s' name record { record.image with header } (some pair) ∧
      (record.image.header.Shaped → header.Shaped) ∧ pair.publicKey.InRange ∧
      s'.generated = s.generated ∧ s'.queue = s.queue := by
  obtain ⟨record, algorithm, hlookup, -, ⟨hbits, rfl⟩ | ⟨-, resized, hresized, rfl⟩⟩ :=
    signWith_cases h
  · exact ⟨record, record.image.header, ⟨hlookup, hlookup, fun _ _ => rfl, rfl, rfl⟩, id,
      inRange_of_bits hbits, rfl, rfl⟩
  · refine ⟨record, { record.image.header with algorithmType := resized.code },
      ⟨hlookup, ?_, fun other hother => ?_, rfl, rfl⟩, fun hshaped => ?_,
      inRange_of_bits (forKeyBits_eq_ok hresized).1, rfl, rfl⟩
    · exact Entries.lookup_assign_self _ _ _
    · exact Entries.lookup_assign_of_ne hother _ _
    · exact ⟨hshaped.magic, hshaped.releaseString, hshaped.reserved⟩

/-- The pair at hand for a key has it, and it is from the keyring or was generated for its size. -/
theorem findPair_eq_some {means : Means} {key : Option PublicKey} {pair : KeyPair}
    (h : s.findPair means key = some pair) :
    key = some pair.publicKey ∧ (pair ∈ means.keyring ∨ (pair.bits, pair) ∈ s.generated) := by
  cases key with
  | none => cases h
  | some key =>
    change (means.keyring.find? key <|> _) = some pair at h
    rw [Option.orElse_eq_orElse, Option.orElse_eq_or, Option.or_eq_some_iff] at h
    rcases h with hring | ⟨-, hgenerated⟩
    · have hkey := List.find?_some hring
      rw [decide_eq_true_iff] at hkey
      exact ⟨congrArg some hkey.symm, .inl (List.mem_of_find?_eq_some hring)⟩
    · obtain ⟨hlookup, hkey⟩ := Option.filter_eq_some_iff.1 hgenerated
      rw [decide_eq_true_iff] at hkey
      obtain ⟨before, after, hlist, -⟩ := List.lookup_eq_some_iff.1 hlookup
      refine ⟨congrArg some hkey.symm, .inr ?_⟩
      rw [hlist, KeyPair.bits, hkey]
      exact List.mem_append_right _ List.mem_cons_self

/-- Where no pair is at hand for a key, there is none in the keyring. -/
theorem find?_of_findPair_eq_none {means : Means} {key : Option PublicKey}
    (h : s.findPair means key = none) : key.bind means.keyring.find? = none := by
  cases key with
  | none => rfl
  | some key =>
    change (means.keyring.find? key <|> _) = none at h
    rw [Option.orElse_eq_orElse, Option.orElse_eq_or, Option.or_eq_none_iff] at h
    exact h.1

/-- A generated pair was there before, or it is new. -/
theorem generatedPair_eq_ok {means : Means} {bits : Nat} {pair : KeyPair}
    (h : s.generatedPair means bits = .ok (pair, s')) :
    ((bits, pair) ∈ s.generated ∧ s' = s) ∨
      (means.generate bits = .ok pair ∧
        s' = { s with generated := s.generated ++ [(bits, pair)] }) := by
  unfold generatedPair at h
  split at h
  · next found hfound =>
    obtain ⟨rfl, rfl⟩ := Prod.mk.inj (Except.ok.inj h)
    obtain ⟨before, after, hlist, -⟩ := List.lookup_eq_some_iff.1 hfound
    refine .inl ⟨?_, rfl⟩
    rw [hlist]
    exact List.mem_append_right _ List.mem_cons_self
  · obtain ⟨made, hmade, h₁⟩ := Outcome.bind_eq_ok.1 h
    obtain ⟨rfl, rfl⟩ := Prod.mk.inj (Except.ok.inj h₁)
    exact .inr ⟨hmade, rfl⟩

/-- The pair is at hand afterwards, and what is at hand was there before or was generated. Nothing
else changes. -/
theorem generated_of_generatedPair {means : Means} {bits : Nat} {pair : KeyPair}
    (h : s.generatedPair means bits = .ok (pair, s')) :
    s' = { s with generated := s'.generated } ∧ (bits, pair) ∈ s'.generated ∧
      ∀ e ∈ s'.generated, e ∈ s.generated ∨ means.generate e.1 = .ok e.2 := by
  rcases generatedPair_eq_ok h with ⟨hmem, rfl⟩ | ⟨hmade, rfl⟩
  · exact ⟨rfl, hmem, fun e he => .inl he⟩
  · refine ⟨rfl, List.mem_append_right _ List.mem_cons_self, fun e he => ?_⟩
    rcases List.mem_append.1 he with he | he
    · exact .inl he
    · obtain rfl := List.mem_singleton.1 he
      exact .inr hmade

/-- What is found in a record behind a reference is the chain descriptor there. -/
theorem chainAt_eq_ok {r : Reference} {i : Nat} {d : ChainDescriptor} (hi : r.index = i) :
    s.chainAt r = .ok (some d) ↔ ∃ record, s.records.lookup r.holder = some record ∧
      record.image.descriptors[i]? = some (.chain d) := by
  unfold chainAt
  rw [hi]
  cases hlookup : s.records.lookup r.holder with
  | none => exact ⟨nofun, fun ⟨_, h, _⟩ => nomatch h⟩
  | some record =>
    dsimp only
    constructor
    · intro h
      split at h
      · cases h
      -- An index that is not negative counts from the front.
      · obtain ⟨found, hfound, h₁⟩ := Outcome.bind_eq_ok.1 h
        refine ⟨record, rfl, ?_⟩
        rw [Image.descriptorAt_natCast.1 hfound]
        cases found with
        | chain d' => exact congrArg (some ∘ Descriptor.chain) (Option.some.inj (Except.ok.inj h₁))
        | property _ | hashtree _ | hash _ | cmdline _ | unknown _ => cases h₁
    · rintro ⟨record', hrecord, hd⟩
      obtain rfl := Option.some.inj hrecord
      have hlt := (List.getElem?_eq_some_iff.1 hd).1
      rw [if_neg (by omega)]
      exact Outcome.bind_eq_ok.2 ⟨.chain d, Image.descriptorAt_natCast.2 hd, rfl⟩

/-- The references to a partition are those that stand for a chain descriptor elsewhere. -/
theorem mem_chainReferences {refs : List (Reference × ChainDescriptor)}
    (h : s.chainReferences name = .ok refs) {r : Reference} {d : ChainDescriptor} :
    (r, d) ∈ refs ↔ r ∈ s.references ∧ r.partition = name ∧ r.holder ≠ name ∧
      s.chainAt r = .ok (some d) := by
  obtain ⟨found, hfound, h₁⟩ := Outcome.bind_eq_ok.1 h
  obtain rfl := Except.ok.inj h₁
  rw [List.mem_mergeSort, List.mem_filterMap]
  constructor
  · rintro ⟨x, hx, hid⟩
    obtain rfl : x = some (r, d) := hid
    obtain ⟨r', hr', hat⟩ := (Outcome.mem_mapM hfound).1 hx
    obtain ⟨hmem, htest⟩ := List.mem_filter.1 hr'
    obtain ⟨d', hd', hpair⟩ := Outcome.bind_eq_ok.1 hat
    obtain ⟨c, rfl, hc⟩ := Option.map_eq_some_iff.1 (Except.ok.inj hpair)
    obtain ⟨rfl, rfl⟩ := Prod.mk.inj hc
    rw [Bool.and_eq_true, decide_eq_true_iff, decide_eq_true_iff] at htest
    exact ⟨hmem, htest.1, htest.2, hd'⟩
  · rintro ⟨hmem, hpartition, hholder, hat⟩
    refine ⟨some (r, d), (Outcome.mem_mapM hfound).2 ⟨r, ?_, ?_⟩, rfl⟩
    · refine List.mem_filter.2 ⟨hmem, ?_⟩
      rw [Bool.and_eq_true, decide_eq_true_iff, decide_eq_true_iff]
      exact ⟨hpartition, hholder⟩
    · exact Outcome.bind_eq_ok.2 ⟨some d, hat, rfl⟩

/-- The issue that the key of a chain descriptor is not the one of a pair. -/
def stale (pair : KeyPair) (reference : Reference) : Issue :=
  .publicKeyMismatch reference.holder reference.index (some pair.publicKey)

/-- What giving an image a new key does: a pair is generated for the size that one of the chain
descriptors asks for, its key is put into the image, which is signed with it, and then all the
descriptors are put into question. -/
theorem rekey_cases {means : Means} (h : s.rekey means name = .ok s') :
    ∃ refs r declared pair s₁ record s₂, s.chainReferences name = .ok refs ∧ (r, declared) ∈ refs ∧
      s.generatedPair means (freshBits declared) = .ok (pair, s₁) ∧
      s₁.records.lookup name = some record ∧
      (s₁.setImage name record { record.image with publicKey := some pair.publicKey }).signWith
        name pair = .ok s₂ ∧
      s' = { s₂ with queue := (refs.map fun r => stale pair r.1).foldl Findings.noteIn s₂.queue } := by
  obtain ⟨refs, hrefs, h₁⟩ := Outcome.bind_eq_ok.1 h
  split at h₁
  · cases h₁
  · next reference declared others =>
    obtain ⟨⟨pair, s₁⟩, hpair, h₂⟩ := Outcome.bind_eq_ok.1 h₁
    obtain ⟨record, hrecord, h₃⟩ := Outcome.bind_eq_ok.1 h₂
    obtain ⟨s₂, hsign, h₄⟩ := Outcome.bind_eq_ok.1 h₃
    refine ⟨_, reference, declared, pair, s₁, record, s₂, hrefs, List.mem_cons_self, hpair,
      record_eq_ok.1 hrecord, hsign, ?_⟩
    -- The issues are added one after the other.
    rw [← foldl_add, List.foldl_map, ← Except.ok.inj h₄]
    exact @List.foldl_map _ _ _ Prod.fst _ ((reference, declared) :: others) s₂

/-- To give an image a new key is a step that puts every chain descriptor of it into question. The
size of the key follows one of these descriptors. -/
theorem rekey_eq_ok {means : Means} (h : s.rekey means name = .ok s') :
    ∃ refs pair record header, s.chainReferences name = .ok refs ∧
      Edited s s' name record { record.image with header, publicKey := some pair.publicKey }
        (some pair) ∧
      (record.image.header.Shaped → header.Shaped) ∧ pair.publicKey.InRange ∧
      (∃ r declared, (r, declared) ∈ refs ∧ (freshBits declared, pair) ∈ s'.generated) ∧
      (∀ e ∈ s'.generated, e ∈ s.generated ∨ means.generate e.1 = .ok e.2) ∧
      s'.queue = (refs.map fun r => stale pair r.1).foldl Findings.noteIn s.queue := by
  obtain ⟨refs, r, declared, pair, s₁, record, s₂, hrefs, hr, hpair, hlookup, hsign, rfl⟩ :=
    rekey_cases h
  obtain ⟨signed, header, hedited, hshaped, hrange, hgenerated, hqueue⟩ := signWith_eq_ok hsign
  obtain ⟨hsame, hmem, horigin⟩ := generated_of_generatedPair hpair
  have hrecords : s₁.records = s.records := by rw [hsame]
  have hchanged : s₁.changed = s.changed := by rw [hsame]
  have hreferences : s₁.references = s.references := by rw [hsame]
  have hqueued : s₁.queue = s.queue := by rw [hsame]
  obtain rfl : signed =
      { record with image := { record.image with publicKey := some pair.publicKey } } := by
    have hbefore := hedited.before
    rw [setImage, Entries.lookup_assign_self] at hbefore
    exact (Option.some.inj hbefore).symm
  refine ⟨refs, pair, record, header, hrefs, ⟨?_, hedited.after, fun other hother => ?_, ?_, ?_⟩,
    hshaped, hrange, ?_, ?_, ?_⟩
  · rw [← hrecords]
    exact hlookup
  · rw [hedited.others other hother, ← hrecords]
    exact Entries.lookup_assign_of_ne hother _ _
  · rw [← hchanged]
    exact hedited.changed
  · rw [← hreferences]
    exact hedited.references
  · rw [hgenerated]
    exact ⟨r, declared, hr, hmem⟩
  · rw [hgenerated]
    exact horigin
  · rw [hqueue, ← hqueued]
    rfl

/-- To mend a signature is to sign with the pair at hand for the key of the image, or to give it a
new key. -/
theorem mendSignature_eq_ok {means : Means} (h : s.mendSignature means name = .ok s') :
    (∃ pair record header, record.image.publicKey = some pair.publicKey ∧
      (pair ∈ means.keyring ∨ ∃ bits, (bits, pair) ∈ s.generated) ∧
      Edited s s' name record { record.image with header } (some pair) ∧
      (record.image.header.Shaped → header.Shaped) ∧ pair.publicKey.InRange ∧
      s'.generated = s.generated ∧ s'.queue = s.queue) ∨
    s.rekey means name = .ok s' := by
  obtain ⟨found, hfound, h₁⟩ := Outcome.bind_eq_ok.1 h
  split at h₁
  · next pair hpair =>
    obtain ⟨hkey, hsource⟩ := findPair_eq_some hpair
    obtain ⟨record, header, hedited, hshaped, hrange, hgenerated, hqueue⟩ := signWith_eq_ok h₁
    obtain rfl := Option.some.inj ((record_eq_ok.1 hfound).symm.trans hedited.before)
    exact .inl ⟨pair, found, header, hkey, hsource.imp_right fun hmem => ⟨_, hmem⟩, hedited,
      hshaped, hrange, hgenerated, hqueue⟩
  · exact .inr h₁

end State

end Repair

end VerifiedBoot
