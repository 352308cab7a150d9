import VerifiedBoot.Proofs.Repair.Progress
import VerifiedBoot.Proofs.Repair.Write

/-!
# How far a repair reaches

When the queue of a repair is empty, what was changed is what is affected, each image that had to
get a new key has one, and the requests for the changed images can be made. So a repair comes to
requests for exactly what is affected, or it fails because of an image that has to get a new key and
that no other partition has a chain descriptor of.
-/

namespace VerifiedBoot

namespace Repair

variable {means : Means} {found : Verification} {s : State} {name : String}

/-- The invariant holds at the start, where nothing is changed yet and all issues wait. -/
theorem Grounded.underway (hg : Grounded means found) :
    Underway means found (State.ofVerification found) := by
  have hqueue := @Verifier.mem_queue_ofVerification found
  rw [Verifier.ofVerification_eq] at hqueue ⊢
  exact
    { record := fun hrecord => ⟨_, hrecord, rfl, fun _ => ⟨rfl, rfl⟩⟩
      present := fun hfirst => ⟨_, hfirst⟩
      declared := hg.declared
      references := rfl
      generated := nofun
      nodup := List.nodup_nil
      queue := Findings.nodup_foldl_noteIn List.nodup_nil found.issues
      mendable := fun issue hissue => hg.mendable issue (hqueue.1 hissue)
      changed := nofun
      waiting := fun issue hissue name hname => .issue (hqueue.1 hissue) hname
      unsettled := fun _ _ => rfl
      issues := fun issue hissue name hname => .inr ⟨issue, hqueue.2 hissue, hname⟩
      signatures := fun name hname => .inl (hqueue.2 hname)
      unsigned := nofun
      holders := nofun }

/-- With an empty queue everything that was taken up is changed. -/
theorem State.TakenUp.changed (h : s.TakenUp name) (hqueue : s.queue = []) :
    (s.changed.lookup name).isSome := by
  refine h.resolve_right ?_
  rintro ⟨issue, hissue, -⟩
  rw [hqueue] at hissue
  exact List.not_mem_nil hissue

namespace Underway

variable (hi : Underway means found s) (hqueue : s.queue = [])
include hi hqueue

/-- With an empty queue there is a pair for each image that has to get a new key and was changed. -/
theorem signer_isSome (hchanged : (s.changed.lookup name).isSome)
    (hneeds : NeedsKey means found name) : (s.signer name).isSome := by
  by_contra hnone
  rw [Option.not_isSome_iff_eq_none] at hnone
  obtain ⟨first, hfirst, hdue, -⟩ := hneeds
  have hwaits : .invalidSignature name ∈ s.queue := by
    rcases hdue with hkey | hissue
    · exact hi.unsigned hchanged hnone hfirst hkey
    · refine (hi.signatures name hissue).resolve_right ?_
      rw [hnone]
      exact Bool.false_ne_true
  rw [hqueue] at hwaits
  exact List.not_mem_nil hwaits

/-- With an empty queue exactly what is affected was changed. -/
theorem changed_iff : (s.changed.lookup name).isSome ↔ Affected means found name := by
  constructor
  · exact hi.changed name
  · intro h
    -- What issues name was taken up, and so were the holders with each new key.
    induction h with
    | issue hissue hname => exact (hi.issues _ hissue _ hname).changed hqueue
    | @holder p q _ hneeds hne hchains ih =>
      have hsigner := hi.signer_isSome hqueue ih hneeds
      exact ((hi.holders hsigner hneeds).2 p hne hchains).changed hqueue

/-- With an empty queue others have chain descriptors of every image that got a new key. -/
theorem chained_of_rekeyed (h : Rekeyed means found name) : Chained found name := by
  obtain ⟨haffected, hneeds⟩ := h
  exact (hi.holders (hi.signer_isSome hqueue ((hi.changed_iff hqueue).2 haffected) hneeds) hneeds).1

/-- With an empty queue the requests for the changed images can be made. -/
theorem exists_requests (hg : Grounded means found) :
    ∃ requests, s.changed.mapM (fun (name, pair) => s.request name pair) = .ok requests := by
  refine Outcome.exists_mapM ?_
  rintro ⟨name, pair⟩ hmem
  have hlookup : s.changed.lookup name = some pair := Entries.lookup_of_mem hi.nodup hmem
  have hchanged : (s.changed.lookup name).isSome := by
    rw [hlookup]
    rfl
  obtain ⟨first, hfirst⟩ := ((hi.changed_iff hqueue).1 hchanged).exists_record hg
  obtain ⟨record, hrecord, -, hsame⟩ := hi.exists_record hfirst
  refine State.exists_request hrecord ?_
  rintro rfl
  have hnone : s.signer name = none := by
    rw [State.signer, hlookup]
    rfl
  by_contra hkey
  rw [(hsame hnone).2] at hkey
  have hwaits := hi.unsigned hchanged hnone hfirst (Option.isSome_iff_ne_none.2 hkey)
  rw [hqueue] at hwaits
  exact List.not_mem_nil hwaits

end Underway

end Repair

namespace Verifier

open Repair

variable {v : Verifier} {store : Store} {root : String} {found : Verification}

/-- **A repair changes what it has to, and fails only if it has to.** Suppose that all data that was
verified is valid, that all keys in images and in chain descriptors have sizes that images can be
signed with, and that new pairs of these sizes can be made. If there are chain descriptors in other
partitions of every image that has to get a new key, the repair comes to one request for each
partition that is affected and to no other; if there is an image without, it fails because of
such an image. -/
theorem rebuild_affected {means : Means} {limit : Int} (h : v.verify store root = .ok found)
    (hvalid : ∀ name, .invalidPartitionData name ∉ found.issues)
    (hlimit : rebuild means found limit ≠ .error (.unrepairable .tooManySteps))
    (hembedded : ∀ name first key, found.records.lookup name = some first →
      first.image.publicKey = some key → key.Standard)
    (hdeclared : ∀ name first d key, found.records.lookup name = some first →
      .chain d ∈ first.image.descriptors → d.publicKey = some key → key.Standard)
    (hfresh : ∀ size : KeySize, ∃ pair, means.generate size.bits = .ok pair ∧
      pair.bits = size.bits ∧ ∀ name first, found.records.lookup name = some first →
        first.image.publicKey ≠ some pair.publicKey) :
    ((∀ q, Rekeyed means found q → Chained found q) →
      ∃ requests, rebuild means found limit = .ok requests ∧
        (requests.map (·.partition)).Nodup ∧
        ∀ name, name ∈ requests.map (·.partition) ↔ Affected means found name) ∧
    ((∃ q, Rekeyed means found q ∧ ¬Chained found q) →
      ∃ q, Rekeyed means found q ∧ ¬Chained found q ∧
        rebuild means found limit = .error (.unrepairable (.unsignable q))) := by
  have hg := grounded h hvalid hembedded hdeclared hfresh
  have hdrain : (State.ofVerification found).drain means limit.toNat ≠
      .error (.unrepairable .tooManySteps) := by
    intro herror
    refine hlimit ?_
    rw [rebuild, herror]
    rfl
  -- Handling the issues leads to an empty queue or to an image that nobody has a chain descriptor
  -- of; either way one of the two claims has nothing to say.
  rcases hg.underway.drain hg hdrain with ⟨s, hs, hi, hqueue⟩ | ⟨q, hq, hunchained, herror⟩
  · obtain ⟨requests, hrequests⟩ := hi.exists_requests hqueue hg
    obtain ⟨hnodup, hnames, -⟩ := requests_eq_ok hi.nodup hrequests
    refine ⟨fun _ => ⟨requests, Outcome.bind_eq_ok.2 ⟨s, hs, hrequests⟩, hnodup, fun name => ?_⟩,
      ?_⟩
    · rw [hnames]
      exact hi.changed_iff hqueue
    · rintro ⟨q, hq, hunchained⟩
      exact absurd (hi.chained_of_rekeyed hqueue hq) hunchained
  · refine ⟨fun hall => absurd (hall q hq) hunchained, fun _ => ⟨q, hq, hunchained, ?_⟩⟩
    rw [rebuild, herror]
    rfl

/-- The private key of two primes that are a little below a power of two. -/
def nearKey (bits below below' turns : Nat) : Rsa.Key where
  modulus := (1 <<< bits - below) * (1 <<< bits - below')
  exponent := 65537
  -- The private exponent inverts the public one modulo the order of the group.
  privateExponent := some
    ((turns * ((1 <<< bits - below - 1) * (1 <<< bits - below' - 1)) + 1) / 65537)

/-- Private keys of 2048, 4096 and 8192 bits. -/
def freshKeys : List Rsa.Key :=
  [nearKey 1024 105 179 54058, nearKey 2048 1557 2543 1651, nearKey 4096 2549 8067 1581]

/-- A chain descriptor without a key. -/
def bareChain : ChainDescriptor :=
  ⟨1, "boot", none, 0, Bytes.zeros 60⟩

theorem inRange_bareChain : bareChain.InRange := by
  refine ⟨?_, ?_, nofun, ?_, ?_⟩
  all_goals decide

/-- An unsigned image with this descriptor. -/
def chainImage : Image :=
  { Image.empty with descriptors := [.chain bareChain] }

/-- A store with the image and, in the partition that it chains, an unsigned image. -/
def chainStore : Store :=
  .ofList [
    ("vbmeta", (chainImage.encodeUnsigned .standard 64).1.toOption.getD []),
    ("boot", (Image.empty.encodeUnsigned .standard 64).1.toOption.getD [])]

/-- What is found in the store: the chained image is not signed. -/
def chainFound : Verification where
  root := "vbmeta"
  records := [
    ("vbmeta", ⟨Image.unsignedImage chainImage 96, none⟩),
    ("boot", ⟨Image.unsignedImage Image.empty 0, none⟩)]
  issues := [.invalidSignature "boot"]
  references := [⟨"boot", "vbmeta", 0⟩]

/-- Both images are read from their partitions. -/
theorem parse_chainStore : ∃ blob blob',
    (chainStore.open? "vbmeta" = .ok blob ∧
      Image.parse .standard blob = .ok (Image.unsignedImage chainImage 96)) ∧
    chainStore.open? "boot" = .ok blob' ∧
      Image.parse .standard blob' = .ok (Image.unsignedImage Image.empty 0) := by
  have hrange : chainImage.InRange :=
    Image.inRange_of_descriptors (List.forall_mem_singleton.2 inRange_bareChain)
  have hrange' : Image.empty.InRange := Image.inRange_of_descriptors (List.forall_mem_nil _)
  refine ⟨_, _, ⟨rfl, ?_⟩, rfl, ?_⟩
  · refine Image.parse_getD_encodeUnsigned ?_ ?_ hrange (by decide)
    all_goals decide +kernel
  · refine Image.parse_getD_encodeUnsigned ?_ ?_ hrange' (by decide)
    all_goals decide +kernel

/-- The verification of the store finds the one issue. -/
theorem verify_chainStore :
    verify ⟨.standard, defaultChunkSize⟩ chainStore "vbmeta" = .ok chainFound := by
  obtain ⟨blob, blob', ⟨hopen, hparse⟩, hopen', hparse'⟩ := parse_chainStore
  have himage' := Store.image_of_parse hopen' hparse'
  have hrecord := @recordOf?_of_parse ⟨.standard, defaultChunkSize⟩ _ _ _ _ hopen hparse
  have hrecord' := @recordOf?_of_parse ⟨.standard, defaultChunkSize⟩ _ _ _ _ hopen' hparse'
  have hcheck : checkChainDescriptor ⟨.standard, defaultChunkSize⟩ chainStore
      ⟨"vbmeta", 0, .chain bareChain⟩ bareChain ⟨["vbmeta"], [], []⟩ =
        .ok (true, ⟨["vbmeta", "boot"], chainFound.issues, chainFound.references⟩) :=
    Outcome.bind_eq_ok.2 ⟨_, himage', rfl⟩
  have henter : enter ⟨.standard, defaultChunkSize⟩ chainStore "boot"
      ⟨["vbmeta", "boot"], chainFound.issues, chainFound.references⟩ =
        .ok ([], ⟨["vbmeta", "boot"], chainFound.issues, chainFound.references⟩) :=
    Outcome.bind_eq_ok.2 ⟨_, himage', rfl⟩
  refine Outcome.bind_eq_ok.2 ⟨([⟨"vbmeta", 0, .chain bareChain⟩], ⟨["vbmeta"], [], []⟩),
    Outcome.bind_eq_ok.2 ⟨_, Store.image_of_parse hopen hparse, rfl⟩, Outcome.bind_eq_ok.2
      ⟨⟨["vbmeta", "boot"], chainFound.issues, chainFound.references⟩, ?_, ?_⟩⟩
  · have hleft : bareChain.partitionName ∈ without chainStore.names "vbmeta" := by decide
    rw [walk_of_chain rfl hcheck hleft henter]
    exact walk_nil
  · rw [records_cons hrecord, records_cons hrecord']
    rfl

/-- Neither image embeds a key, and the one chain descriptor has none. -/
theorem unkeyed_of_chainFound {name : String} {first : Record}
    (h : chainFound.records.lookup name = some first) : first.image.publicKey = none ∧
      ∀ d, .chain d ∈ first.image.descriptors → d.publicKey = none := by
  rw [chainFound, Entries.lookup_cons, Entries.lookup_cons] at h
  split at h
  · obtain rfl := Option.some.inj h
    refine ⟨rfl, fun d hd => ?_⟩
    obtain rfl := Descriptor.chain.inj (List.mem_singleton.1 hd)
    rfl
  · split at h
    · obtain rfl := Option.some.inj h
      exact ⟨rfl, nofun⟩
    · cases h

/-- The image that is chained is not signed, so it gets a new key, and the chain descriptor is
mended: one request for each of the two partitions. -/
theorem rebuild_affected_chainStore :
    (verify ⟨.standard, defaultChunkSize⟩ chainStore "vbmeta" = .ok chainFound ∧
      (∀ q, Rekeyed ⟨[], KeyPair.fresh freshKeys⟩ chainFound q → Chained chainFound q)) ∧
    ∃ requests, rebuild ⟨[], KeyPair.fresh freshKeys⟩ chainFound defaultLimit = .ok requests ∧
      (requests.map (·.partition)).Nodup ∧
      ∀ name, name ∈ requests.map (·.partition) ↔
        Affected ⟨[], KeyPair.fresh freshKeys⟩ chainFound name := by
  have hchains : Chains chainFound "vbmeta" "boot" :=
    ⟨0, ⟨Image.unsignedImage chainImage 96, none⟩, bareChain, List.mem_singleton.2 rfl, rfl, rfl⟩
  have hall : ∀ q, Rekeyed ⟨[], KeyPair.fresh freshKeys⟩ chainFound q → Chained chainFound q := by
    rintro q ⟨-, first, hfirst, hdue, -⟩
    rw [(unkeyed_of_chainFound hfirst).1] at hdue
    obtain rfl : q = "boot" :=
      Issue.invalidSignature.inj (List.mem_singleton.1 (hdue.resolve_left Bool.false_ne_true))
    exact ⟨"vbmeta", by decide, hchains⟩
  refine ⟨⟨verify_chainStore, hall⟩, ?_⟩
  -- What is left: no invalid data, no limit passed, no key of another size in images and in
  -- descriptors, and a supply of new pairs.
  refine (rebuild_affected verify_chainStore ?_ ?_ ?_ ?_ ?_).1 hall
  · exact fun name hname => absurd (List.mem_singleton.1 hname) nofun
  · intro herror
    have hbool : (rebuild ⟨[], KeyPair.fresh freshKeys⟩ chainFound defaultLimit).toBool = true := by
      decide +kernel
    rw [herror] at hbool
    cases hbool
  · intro name first key hfirst hkey
    rw [(unkeyed_of_chainFound hfirst).1] at hkey
    cases hkey
  · intro name first d key hfirst hd hkey
    rw [(unkeyed_of_chainFound hfirst).2 d hd] at hkey
    cases hkey
  · intro size
    have hbool : (KeyPair.fresh freshKeys size.bits).toBool = true := by
      cases size <;> decide +kernel
    cases hfresh : KeyPair.fresh freshKeys size.bits with
    | error e =>
      rw [hfresh] at hbool
      cases hbool
    | ok pair =>
      refine ⟨pair, hfresh, KeyPair.bits_of_fresh hfresh, fun name first hfirst => ?_⟩
      rw [(unkeyed_of_chainFound hfirst).1]
      exact nofun

end Verifier

end VerifiedBoot
