import VerifiedBoot.Proofs.Repair.Run
import VerifiedBoot.Proofs.Repair.Totality

/-!
# What it means that an issue was handled

A step from one state of a repair to the next, whatever the verification says that the repair began
with: a descriptor is replaced, an image is signed with a pair that is at hand for its key, or it
gets a new key. An issue may count its descriptor from the end of the image; then the step is one
that counts from the start.

How a step fails is the other half. Two of the failures of a repair are about the repair as a whole
and are never those of a step: that there are too many of them, and that a changed image is without
a pair in the end.
-/

namespace VerifiedBoot

namespace Image

variable {image : Image} {index : Int} {d : Descriptor}

/-- What is found at an index is at the position that the index counts. -/
theorem descriptorAt_eq_ok : image.descriptorAt index = .ok d ↔
    ∃ i : Nat, position? image.descriptors.length index = some i ∧
      image.descriptors[i]? = some d := by
  rw [← Option.bind_eq_some_iff]
  unfold descriptorAt
  cases (position? image.descriptors.length index).bind (image.descriptors[·]?) with
  | none => exact ⟨nofun, nofun⟩
  | some found => exact ⟨fun h => congrArg some (Except.ok.inj h),
      fun h => congrArg Except.ok (Option.some.inj h)⟩

theorem setDescriptor_of_position {i : Nat}
    (h : position? image.descriptors.length index = some i) :
    image.setDescriptor index d = image.setDescriptor i d := by
  rw [setDescriptor_natCast, setDescriptor, h]

end Image

/-- Whether a header is another one but for the algorithm, which is for keys of a size. -/
def Header.Resized (old : Header) (bits : Nat) (header : Header) : Prop :=
  ∃ algorithm : Algorithm, algorithm.keyBits = bits ∧
    header = { old with algorithmType := algorithm.code }

/-- Whether a header is another one made fit for keys of a size: it is left as it is if its
algorithm is for this size, and gets the algorithm of the same digest otherwise. Where there is no
digest it is SHA-256. -/
def Header.Adjusted (old : Header) (bits : Nat) (header : Header) : Prop :=
  ∃ current, old.algorithm = .ok current ∧
    (current.keyBits = bits ∧ header = old ∨
      current.keyBits ≠ bits ∧ ∃ algorithm : Algorithm, algorithm.keyBits = bits ∧
        algorithm.digest? = some (current.digest?.getD .sha256) ∧
        header = { old with algorithmType := algorithm.code })

/-- The header of an algorithm has the number of the algorithm. -/
theorem Header.algorithmType_of_algorithm {header : Header} {algorithm : Algorithm}
    (h : header.algorithm = .ok algorithm) : header.algorithmType = algorithm.code := by
  unfold Header.algorithm Algorithm.ofCode at h
  split at h
  · next found hfound =>
    obtain rfl := Except.ok.inj h
    have hcode := List.find?_some hfound
    rw [decide_eq_true_iff] at hcode
    exact hcode.symm
  · cases h

/-- A header for keys of a size that is not zero has an algorithm for them. -/
theorem Header.Resized.exists_algorithm {old header : Header} {bits : Nat}
    (h : Header.Resized old bits header) (hbits : 0 < bits) :
    ∃ family size, header.algorithm = .ok (.signed family size) ∧ size.bits = bits := by
  obtain ⟨algorithm, hkey, rfl⟩ := h
  cases algorithm with
  | unsigned => exact absurd hkey (Nat.ne_of_lt hbits)
  | signed family size => exact ⟨family, size, Algorithm.ofCode_code _, hkey⟩

/-- A header with another algorithm still fits its fields. -/
theorem Header.Resized.inRange {old header : Header} {bits : Nat}
    (h : Header.Resized old bits header) (hold : old.InRange) : header.InRange := by
  obtain ⟨algorithm, -, rfl⟩ := h
  obtain ⟨hmagic, hmajor, hminor, hauthentication, hauxiliary, -, hrest⟩ := hold.holds
  have hcode : 0 ≤ (algorithm.code : Int) ∧ (algorithm.code : Int) < (1 <<< 32 : Nat) := by
    rcases algorithm with _ | ⟨_ | _, _ | _ | _⟩ <;> decide
  exact ⟨⟨hmagic, hmajor, hminor, hauthentication, hauxiliary, hcode, hrest⟩, hold.magic,
    hold.extents, algorithm, Algorithm.ofCode_code algorithm⟩

/-- A header that was made fit for keys of a size has an algorithm for them. -/
theorem Header.Adjusted.resized {old header : Header} {bits : Nat} (h : old.Adjusted bits header) :
    old.Resized bits header := by
  obtain ⟨current, hcurrent, ⟨hbits, rfl⟩ | ⟨-, algorithm, hbits, -, rfl⟩⟩ := h
  · exact ⟨current, hbits, by rw [← Header.algorithmType_of_algorithm hcurrent]⟩
  · exact ⟨algorithm, hbits, rfl⟩

namespace Repair

variable {means : Means} {s s' : State} {name : String} {issue : Issue}

namespace State

section Position

variable {index : Int} {kind : DescriptorKind} {record : Record} {d : Descriptor}

/-- A descriptor that is found by an index is found by the position that the index counts. -/
theorem exists_position (h : s.descriptorOf name index kind = .ok (record, d)) :
    ∃ i : Nat, Image.position? record.image.descriptors.length index = some i ∧
      s.descriptorOf name i kind = .ok (record, d) := by
  obtain ⟨hrecord, hd, rfl⟩ := descriptorAt_of_descriptorOf h
  obtain ⟨i, hi, hget⟩ := Image.descriptorAt_eq_ok.1 hd
  exact ⟨i, hi, descriptorOf_of_getElem? hrecord hget⟩

/-- A hash is mended at the position that its index counts. -/
theorem exists_mendHash_position {size : Int} {digest : Bytes}
    (h : s.mendHash name index size digest = .ok s') :
    ∃ (record : Record) (i : Nat), s.records.lookup name = some record ∧
      Image.position? record.image.descriptors.length index = some i ∧
      s.mendHash name i size digest = .ok s' := by
  obtain ⟨⟨record, d⟩, hof, h₁⟩ := Outcome.bind_eq_ok.1 h
  obtain ⟨i, hi, hof'⟩ := exists_position hof
  refine ⟨record, i, (descriptorOf_eq_ok hof').1, hi, Outcome.bind_eq_ok.2 ⟨_, hof', ?_⟩⟩
  cases d with
  | hash d =>
    dsimp only at h₁ ⊢
    rw [← Image.setDescriptor_of_position hi]
    exact h₁
  | property _ | hashtree _ | cmdline _ | chain _ | unknown _ => exact h₁

/-- A chain descriptor is mended at the position that its index counts. -/
theorem exists_mendChain_position {key : Option PublicKey}
    (h : s.mendChain name index key = .ok s') :
    ∃ (record : Record) (i : Nat), s.records.lookup name = some record ∧
      Image.position? record.image.descriptors.length index = some i ∧
      s.mendChain name i key = .ok s' := by
  obtain ⟨⟨record, d⟩, hof, h₁⟩ := Outcome.bind_eq_ok.1 h
  obtain ⟨i, hi, hof'⟩ := exists_position hof
  refine ⟨record, i, (descriptorOf_eq_ok hof').1, hi, Outcome.bind_eq_ok.2 ⟨_, hof', ?_⟩⟩
  cases d with
  | chain d =>
    dsimp only at h₁ ⊢
    rw [← Image.setDescriptor_of_position hi]
    exact h₁
  | property _ | hashtree _ | cmdline _ | hash _ | unknown _ => exact h₁

end Position

/-- To sign with a pair makes the header fit for it. -/
theorem adjusted_of_signWith {pair : KeyPair} {record record' : Record}
    (h : s.signWith name pair = .ok s') (hrecord : s.records.lookup name = some record)
    (hrecord' : s'.records.lookup name = some record') :
    record.image.header.Adjusted pair.bits record'.image.header := by
  obtain ⟨found, algorithm, hfound, halgorithm, ⟨hbits, rfl⟩ | ⟨hbits, resized, hresized, rfl⟩⟩ :=
    signWith_cases h
  all_goals obtain rfl := Option.some.inj (hrecord.symm.trans hfound)
  · obtain rfl := Option.some.inj (hrecord.symm.trans hrecord')
    exact ⟨algorithm, halgorithm, .inl ⟨hbits, rfl⟩⟩
  · have hafter := hrecord'.symm.trans (Entries.lookup_assign_self _ _ _)
    obtain rfl := Option.some.inj hafter
    obtain ⟨hkey, hdigest⟩ := forKeyBits_eq_ok hresized
    exact ⟨algorithm, halgorithm, .inr ⟨hbits, resized, hkey, hdigest, rfl⟩⟩

/-- To give an image a new key makes its header fit for the key, and there are chain descriptors of
it. -/
theorem adjusted_of_rekey {record record' : Record} (h : s.rekey means name = .ok s')
    (hrecord : s.records.lookup name = some record)
    (hrecord' : s'.records.lookup name = some record') :
    s.chainReferences name ≠ .ok [] ∧ ∃ pair, s'.signer name = some pair ∧
      record.image.header.Adjusted pair.bits record'.image.header := by
  obtain ⟨refs, r, declared, pair, s₁, found, s₂, hrefs, hr, hpair, hlookup, hsign, rfl⟩ :=
    rekey_cases h
  obtain ⟨_, _, hedited, -⟩ := signWith_eq_ok hsign
  rw [(generated_of_generatedPair hpair).1] at hlookup
  obtain rfl := Option.some.inj (hrecord.symm.trans hlookup)
  have hset : (s₁.setImage name record { record.image with
      publicKey := some pair.publicKey }).records.lookup name = some { record with
        image := { record.image with publicKey := some pair.publicKey } } :=
    Entries.lookup_assign_self _ _ _
  have hadjusted := adjusted_of_signWith hsign hset hrecord'
  refine ⟨?_, pair, hedited.signer_self, hadjusted⟩
  rw [hrefs]
  exact fun hnil => List.ne_nil_of_mem hr (Except.ok.inj hnil)

end State

/-- The step by which an issue was mended. -/
inductive Handled (means : Means) (s s' : State) : Issue → Prop
  | hash {name : String} {index size : Int} {digest : Bytes} {record : Record} {i : Nat}
    {d : HashDescriptor} :
    Image.position? record.image.descriptors.length index = some i →
    record.image.descriptors[i]? = some (.hash d) →
    State.Edited s s' name record { record.image with
      descriptors := record.image.descriptors.set i (.hash { d with imageSize := size, digest }) }
      (s.signer name) →
    s'.generated = s.generated → s'.queue = s.requeue name record →
    Handled means s s' (.hashMismatch name index size digest)
  | chain {name : String} {index : Int} {key : Option PublicKey} {record : Record} {i : Nat}
    {d : ChainDescriptor} :
    Image.position? record.image.descriptors.length index = some i →
    record.image.descriptors[i]? = some (.chain d) →
    State.Edited s s' name record { record.image with
      descriptors := record.image.descriptors.set i (.chain { d with publicKey := key }) }
      (s.signer name) →
    s'.generated = s.generated → s'.queue = s.requeue name record →
    Handled means s s' (.publicKeyMismatch name index key)
  | sign {name : String} {record : Record} {header : Header} {pair : KeyPair} :
    s.findPair means record.image.publicKey = some pair →
    State.Edited s s' name record { record.image with header } (some pair) →
    record.image.header.Adjusted pair.bits header →
    s'.generated = s.generated → s'.queue = s.queue →
    Handled means s s' (.invalidSignature name)
  | rekey {name : String} {record : Record} {header : Header} {pair : KeyPair}
    {refs : List (Reference × ChainDescriptor)} :
    s.findPair means record.image.publicKey = none →
    s.chainReferences name = .ok refs → refs ≠ [] →
    State.Edited s s' name record
      { record.image with header, publicKey := some pair.publicKey } (some pair) →
    record.image.header.Adjusted pair.bits header →
    (∃ r declared, (r, declared) ∈ refs ∧ (State.freshBits declared, pair) ∈ s'.generated) →
    (∀ e ∈ s'.generated, e ∈ s.generated ∨ means.generate e.1 = .ok e.2) →
    s'.queue = (refs.map fun r => State.stale pair r.1).foldl Findings.noteIn s.queue →
    Handled means s s' (.invalidSignature name)

/-- An issue that was mended was mended by one of these steps. -/
theorem handled_of_handle (h : s.handle means issue = .ok s') : Handled means s s' issue := by
  cases issue with
  | hashMismatch name index size digest =>
    obtain ⟨found, i, hfound, hindex, hmend⟩ := State.exists_mendHash_position h
    obtain ⟨record, d, hd, hedited, hgenerated, hqueue⟩ := State.mendHash_eq_ok hmend
    obtain rfl := Option.some.inj (hfound.symm.trans hedited.before)
    exact .hash hindex hd hedited hgenerated hqueue
  | publicKeyMismatch name index key =>
    obtain ⟨found, i, hfound, hindex, hmend⟩ := State.exists_mendChain_position h
    obtain ⟨record, d, hd, hedited, hgenerated, hqueue⟩ := State.mendChain_eq_ok hmend
    obtain rfl := Option.some.inj (hfound.symm.trans hedited.before)
    exact .chain hindex hd hedited hgenerated hqueue
  | invalidSignature name =>
    obtain ⟨found, hfound, h₁⟩ := Outcome.bind_eq_ok.1 h
    have hlookup := State.record_eq_ok.1 hfound
    split at h₁
    · next pair hpair =>
      obtain ⟨record, header, hedited, -, -, hgenerated, hqueue⟩ := State.signWith_eq_ok h₁
      obtain rfl := Option.some.inj (hlookup.symm.trans hedited.before)
      have hadjusted := State.adjusted_of_signWith h₁ hedited.before hedited.after
      exact .sign hpair hedited hadjusted hgenerated hqueue
    · next hnone =>
      obtain ⟨refs, pair, record, header, hrefs, hedited, -, -, hfresh, hgenerated, hqueue⟩ :=
        State.rekey_eq_ok h₁
      obtain rfl := Option.some.inj (hlookup.symm.trans hedited.before)
      -- Both inversions speak of the pair that the step settled, and there is one only.
      obtain ⟨hne, other, hother, hadjusted⟩ :=
        State.adjusted_of_rekey h₁ hedited.before hedited.after
      obtain rfl := Option.some.inj (hedited.signer_self.symm.trans hother)
      exact .rekey hnone hrefs (fun hnil => hne (hnil ▸ hrefs)) hedited hadjusted hfresh hgenerated
        hqueue
  | invalidPartitionData name => cases h
  | other label serial => cases h

/-- Whether an operation never fails in one of the two ways in which a repair fails as a whole. -/
def Stepwise {α : Type} (x : Except Error α) : Prop :=
  x ≠ .error (.unrepairable .tooManySteps) ∧ ∀ name, x ≠ .error (.unrepairable (.noSigningKey name))

namespace Stepwise

variable {α β : Type}

theorem ok (a : α) : Stepwise (.ok a : Except Error α) :=
  ⟨nofun, fun _ => nofun⟩

/-- A sequence fails as its steps do. -/
theorem bind {x : Except Error α} {f : α → Except Error β} (hx : Stepwise x)
    (hf : ∀ a, x = .ok a → Stepwise (f a)) : Stepwise (x >>= f) := by
  cases x with
  | error e =>
    refine ⟨fun h => hx.1 ?_, fun name h => hx.2 name ?_⟩
    · exact congrArg Except.error (Except.error.inj h)
    · exact congrArg Except.error (Except.error.inj h)
  | ok a => exact hf a rfl

/-- A list fails as its members do. -/
theorem mapM {xs : List α} {f : α → Except Error β} (h : ∀ x ∈ xs, Stepwise (f x)) :
    Stepwise (xs.mapM f) := by
  induction xs with
  | nil => exact ok []
  | cons x xs ih =>
    rw [List.mapM_cons]
    refine bind (h x List.mem_cons_self) fun y _ => bind (ih fun z hz => ?_) fun ys _ => ok _
    exact h z (List.mem_cons_of_mem x hz)

end Stepwise

namespace State

theorem record_stepwise (s : State) (name : String) : Stepwise (s.record name) := by
  unfold record
  split
  · exact .ok _
  · exact ⟨nofun, fun _ => nofun⟩

/-- A descriptor that is not there is a failure of a step. -/
theorem descriptorAt_stepwise (image : Image) (index : Int) :
    Stepwise (image.descriptorAt index) := by
  unfold Image.descriptorAt
  split
  · exact .ok _
  · exact ⟨nofun, fun _ => nofun⟩

/-- A descriptor that is not there, or is of another kind, is a failure of a step. -/
theorem descriptorOf_stepwise (s : State) (name : String) (index : Int) (kind : DescriptorKind) :
    Stepwise (s.descriptorOf name index kind) := by
  refine .bind (record_stepwise s name) fun record _ => ?_
  dsimp only
  split
  · exact ⟨nofun, fun _ => nofun⟩
  · refine .bind (descriptorAt_stepwise record.image index) fun d _ => ?_
    split
    · exact ⟨nofun, fun _ => nofun⟩
    · exact .ok _

theorem touch_stepwise (s : State) (name : String) : Stepwise (s.touch name) := by
  refine .bind (record_stepwise s name) fun record _ => ?_
  split
  · exact .ok _
  · exact .ok _

/-- To sign an image fails if there is no algorithm for the pair. -/
theorem signWith_stepwise (s : State) (name : String) (pair : KeyPair) :
    Stepwise (s.signWith name pair) := by
  refine .bind (record_stepwise s name) fun record _ => ?_
  refine .bind ?_ fun algorithm _ => ?_
  · unfold Image.algorithm Header.algorithm Algorithm.ofCode
    split
    · exact .ok _
    · exact ⟨nofun, fun _ => nofun⟩
  · split
    · exact .ok _
    · refine .bind ?_ fun algorithm' _ => .ok _
      unfold Algorithm.forKeyBits
      dsimp only
      split
      · exact .ok _
      · exact ⟨nofun, fun _ => nofun⟩

/-- To look for the chain descriptors of a partition fails where one is looked for in vain. -/
theorem chainReferences_stepwise (s : State) (name : String) :
    Stepwise (s.chainReferences name) := by
  refine .bind (.mapM fun r _ => .bind ?_ fun d _ => .ok _) fun found _ => .ok _
  unfold chainAt
  split
  · exact .ok _
  · split
    · exact .ok _
    · refine .bind (descriptorAt_stepwise _ _) fun d _ => ?_
      cases d <;> exact .ok _

section Generate

variable (hgenerate : ∀ bits cause, means.generate bits ≠ .error (.unrepairable cause))
include hgenerate

/-- To give an image a new key may also fail as the generator does. -/
theorem rekey_stepwise (s : State) (name : String) : Stepwise (s.rekey means name) := by
  refine .bind (chainReferences_stepwise s name) fun refs _ => ?_
  split
  · exact ⟨nofun, fun _ => nofun⟩
  · refine .bind ?_ fun made _ => .bind (record_stepwise _ name) fun record _ =>
      .bind (signWith_stepwise _ name _) fun signed _ => .ok _
    unfold generatedPair
    split
    · exact .ok _
    · refine .bind ?_ fun pair _ => .ok _
      exact ⟨hgenerate _ _, fun _ => hgenerate _ _⟩

/-- No step fails as a repair as a whole does. -/
theorem handle_stepwise (s : State) (issue : Issue) : Stepwise (s.handle means issue) := by
  cases issue with
  | hashMismatch name index size digest =>
    refine .bind (descriptorOf_stepwise s name index .hash) fun found _ => ?_
    split
    · exact touch_stepwise _ name
    · exact .ok _
  | publicKeyMismatch name index key =>
    refine .bind (descriptorOf_stepwise s name index .chain) fun found _ => ?_
    split
    · exact touch_stepwise _ name
    · exact .ok _
  | invalidSignature name =>
    refine .bind (record_stepwise s name) fun record _ => ?_
    split
    · exact signWith_stepwise _ name _
    · exact rekey_stepwise hgenerate s name
  | invalidPartitionData name => exact ⟨nofun, fun _ => nofun⟩
  | other label serial => exact ⟨nofun, fun _ => nofun⟩

end Generate

end State

end Repair

end VerifiedBoot
