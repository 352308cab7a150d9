import Mathlib.Data.List.Nodup
import VerifiedBoot.Proofs.Repair.Extent
import VerifiedBoot.Proofs.Repair.Handled

/-!
# How many issues a repair handles

Handling an issue may put others into the queue, and an issue that was handled may come back, so
the queue by itself says nothing about the end of a repair. What a repair has left to do is counted
by `State.left`: the issues that wait, the partitions whose signature may still become an issue,
and the references to partitions that may still get a new key. A partition counts in this way until
a pair is settled for it, and a pair that is settled is settled for good. So the count falls with
every issue that is handled.

`Repair.Run` is the handling of one issue after the other; nothing is assumed of the verification
that it begins with.
-/

namespace VerifiedBoot

/-- A supply of fresh keys never fails as a repair does. -/
theorem KeyPair.fresh_ne_unrepairable (supply : List Rsa.Key) (bits : Nat) (cause : RepairFailure) :
    KeyPair.fresh supply bits ≠ .error (.unrepairable cause) := by
  intro h
  unfold KeyPair.fresh at h
  split at h
  · cases h
  · split at h
    · unfold KeyPair.ofKey PublicKey.ofKey PublicKey.ofNumbers at h
      repeat' split at h
      all_goals cases h
    · cases h

namespace Repair

variable {means : Means} {found : Verification} {s s' start : State} {issue : Issue}
  {rest : List Issue} {handled : List (State × Issue)} {limit : Nat}

section Counting

variable {α : Type} {xs : List α} {p q r : α → Bool}

/-- What is in two parts of a list that do not meet is counted with the list. -/
theorem countP_add_le (hp : ∀ x ∈ xs, p x = true → r x = true ∧ q x = false)
    (hq : ∀ x ∈ xs, q x = true → r x = true) : xs.countP p + xs.countP q ≤ xs.countP r := by
  induction xs with
  | nil => exact Nat.le_refl 0
  | cons x xs ih =>
    have hrest := ih (fun y hy => hp y (List.mem_cons_of_mem x hy))
      (fun y hy => hq y (List.mem_cons_of_mem x hy))
    have hpx := hp x List.mem_cons_self
    have hqx := hq x List.mem_cons_self
    simp only [List.countP_cons]
    cases hp' : p x with
    | true =>
      obtain ⟨hr', hq'⟩ := hpx hp'
      simp only [hr', hq', if_true, Bool.false_eq_true, if_false]
      omega
    | false =>
      cases hq' : q x with
      | true =>
        simp only [hqx hq', if_true, Bool.false_eq_true, if_false]
        omega
      | false =>
        simp only [Bool.false_eq_true, if_false]
        omega

/-- To note elements one after the other makes a list longer by as many at most. -/
theorem length_foldl_noteIn_le {β : Type} [DecidableEq β] (ys a : List β) :
    (ys.foldl Findings.noteIn a).length ≤ a.length + ys.length := by
  induction ys generalizing a with
  | nil => exact Nat.le_refl _
  | cons y ys ih =>
    have hnoted : (Findings.noteIn a y).length ≤ a.length + 1 := by
      unfold Findings.noteIn
      split
      · exact Nat.le_succ _
      · exact Nat.le_of_eq List.length_append
    have hrest := ih (Findings.noteIn a y)
    rw [List.foldl_cons, List.length_cons]
    omega

end Counting

namespace State

/-- Whether the signature of an image may still become an issue. -/
def atStake (s : State) (name : String) : Bool :=
  (s.signer name).isNone && decide (.invalidSignature name ∉ s.queue)

/-- The most issues that are left to handle, where there are images of some partitions. -/
def left (s : State) (names : List String) : Nat :=
  s.queue.length + names.countP s.atStake +
    s.references.countP fun r => (s.signer r.partition).isNone

/-- Whether a signature may become an issue depends on its pair and on its issue. -/
theorem atStake_eq_true {name : String} :
    s.atStake name = true ↔ s.signer name = none ∧ .invalidSignature name ∉ s.queue := by
  rw [atStake, Bool.and_eq_true, Option.isNone_iff_eq_none, decide_eq_true_iff]

/-- There are no more chain descriptors of a partition than references to it. -/
theorem length_chainReferences_le {name : String} {refs : List (Reference × ChainDescriptor)}
    (h : s.chainReferences name = .ok refs) :
    refs.length ≤ s.references.countP fun r => decide (r.partition = name) := by
  obtain ⟨looked, hlooked, h₁⟩ := Outcome.bind_eq_ok.1 h
  obtain rfl := Except.ok.inj h₁
  have hsame : looked.length =
      (s.references.filter fun r => r.partition = name && r.holder ≠ name).length := by
    have hmap := Outcome.map_eq_of_mapM (k := fun _ => ()) (g := fun _ => ()) hlooked
      fun _ _ _ => rfl
    rw [← @List.length_map _ _ looked fun _ => (), hmap, List.length_map]
  have hfilter := List.length_filterMap_le id looked
  rw [List.length_mergeSort]
  rw [hsame, ← List.countP_eq_length_filter] at hfilter
  refine Nat.le_trans hfilter (List.countP_mono_left fun r _ hr => ?_)
  exact (Bool.and_eq_true_iff.1 hr).1

end State

/-- What the count rests on: no issue waits twice, a signature is an issue only as long as no pair
is settled for it, and only the given partitions have images. -/
structure Tally (names : List String) (s : State) : Prop where
  queue : s.queue.Nodup
  unsettled : ∀ name, .invalidSignature name ∈ s.queue → s.signer name = none
  present : ∀ name, (s.records.lookup name).isSome → name ∈ names

namespace State.Edited

variable {name : String} {record : Record} {image : Image} {pair : Option KeyPair}

/-- A step adds no image. -/
theorem present {names : List String} (h : Edited s s' name record image pair)
    (hs : ∀ n, (s.records.lookup n).isSome → n ∈ names) :
    ∀ n, (s'.records.lookup n).isSome → n ∈ names := by
  intro n hn
  apply hs
  obtain ⟨r, hr⟩ := Option.isSome_iff_exists.1 hn
  rcases h.lookup hr with ⟨rfl, -⟩ | ⟨-, hr⟩
  · rw [h.before]
    rfl
  · rw [hr]
    rfl

theorem signer_eq (h : Edited s s' name record image (s.signer name)) (n : String) :
    s'.signer n = s.signer n := by
  by_cases hn : n = name
  · rw [hn, h.signer_self]
  · exact h.signer_of_ne hn

end State.Edited

namespace Tally

variable {names : List String} {name : String} {record : Record} {image : Image}

section Replaced

variable (ht : Tally names s) (hqueue : s.queue = issue :: rest)
  (hkind : ∀ n, issue ≠ .invalidSignature n)
  (hedited : State.Edited { s with queue := rest } s' name record image
    (State.signer { s with queue := rest } name))
  (hrequeue : s'.queue = State.requeue { s with queue := rest } name record)
include ht hqueue hedited hrequeue

/-- To replace a descriptor keeps what the count rests on. -/
theorem replaced : Tally names s' where
  queue := by
    rw [hrequeue]
    exact State.nodup_requeue (Invariant.nodup_of_queue ht.queue hqueue).2
  unsettled n hn := by
    rw [hedited.signer_eq]
    rw [hrequeue, State.mem_requeue] at hn
    rcases hn with hn | ⟨hn, hnone, -⟩
    · exact ht.unsettled n (Invariant.mem_of_rest hqueue hn)
    · rw [Issue.invalidSignature.inj hn]
      exact hnone
  present := hedited.present ht.present

include hkind

/-- A replaced descriptor counts less: its issue is gone, and if there is one about the signature
instead, this was counted before. -/
theorem left_replaced : s'.left names + 1 ≤ s.left names := by
  have hreferences : s'.references = s.references := hedited.references
  have hsigner (n : String) : s'.signer n = s.signer n := hedited.signer_eq n
  have hmem {n : String} : .invalidSignature n ∈ rest ↔ .invalidSignature n ∈ s.queue := by
    rw [hqueue, List.mem_cons]
    exact ⟨.inr, fun h => h.resolve_left (hkind n).symm⟩
  have hname : name ∈ names := ht.present name (by rw [hedited.unpop.before]; rfl)
  -- Only the signature of the partition may be an issue that was none before.
  have hstake {n : String} (hn : s'.atStake n = true) : s.atStake n = true := by
    rw [State.atStake_eq_true, hsigner, hrequeue, State.mem_requeue, hmem] at hn
    exact State.atStake_eq_true.2 ⟨hn.1, fun h => hn.2 (.inl h)⟩
  have hless :
      s'.queue.length + names.countP s'.atStake ≤ rest.length + names.countP s.atStake := by
    by_cases hnew : s.atStake name = true ∧ .invalidSignature name ∈ s'.queue
    · obtain ⟨hbefore, hafter⟩ := hnew
      have hcount : names.countP s'.atStake + names.countP (fun n => decide (n = name)) ≤
          names.countP s.atStake := by
        refine countP_add_le (fun n _ hn => ⟨hstake hn, decide_eq_false ?_⟩) fun n _ hn => ?_
        · rintro rfl
          exact (State.atStake_eq_true.1 hn).2 hafter
        · rw [of_decide_eq_true hn]
          exact hbefore
      have hone : 0 < names.countP fun n => decide (n = name) :=
        List.countP_pos_iff.2 ⟨name, hname, decide_eq_true rfl⟩
      have hlength : s'.queue.length ≤ rest.length + 1 := by
        rw [hrequeue, State.requeue]
        split
        · exact length_foldl_noteIn_le [.invalidSignature name] rest
        · exact Nat.le_succ _
      omega
    · have hlength : s'.queue = rest := by
        rw [hrequeue, State.requeue]
        split
        · next hadded =>
          refine if_pos ?_
          by_contra habsent
          refine hnew ⟨State.atStake_eq_true.2 ⟨hadded.1, fun h => habsent (hmem.2 h)⟩, ?_⟩
          rw [hrequeue, State.mem_requeue]
          exact .inr ⟨rfl, hadded⟩
        · rfl
      have hcount := List.countP_mono_left (l := names) fun n _ => @hstake n
      rw [hlength]
      omega
  unfold State.left
  simp only [hreferences, hsigner, hqueue, List.length_cons]
  omega

end Replaced

section Signed

variable {pair : KeyPair} {issues : List Issue}
  (hnoted : s'.queue = issues.foldl Findings.noteIn rest)
  (hissues : ∀ issue ∈ issues, ∀ n, issue ≠ .invalidSignature n)
include hnoted hissues

/-- The issues that wait about signatures waited before, behind the first one. -/
theorem mem_rest_of_signed {n : String} :
    .invalidSignature n ∈ s'.queue ↔ .invalidSignature n ∈ rest := by
  rw [hnoted, Findings.mem_foldl_noteIn]
  exact ⟨fun h => h.resolve_right fun hn => hissues _ hn n rfl, .inl⟩

variable (ht : Tally names s) (hqueue : s.queue = .invalidSignature name :: rest)
  (hedited : State.Edited { s with queue := rest } s' name record image (some pair))
include ht hqueue hedited

/-- To settle a pair keeps what the count rests on. -/
theorem signed : Tally names s' where
  queue := by
    rw [hnoted]
    exact Findings.nodup_foldl_noteIn (Invariant.nodup_of_queue ht.queue hqueue).2 issues
  unsettled n hn := by
    have hrest := (mem_rest_of_signed hnoted hissues).1 hn
    by_cases hname : n = name
    · subst hname
      exact absurd hrest (Invariant.nodup_of_queue ht.queue hqueue).1
    · rw [hedited.signer_of_ne hname]
      exact ht.unsettled n (Invariant.mem_of_rest hqueue hrest)
  present := hedited.present ht.present

/-- With a pair settled the partition does not count any more, nor do the references to it. -/
theorem left_signed (hlength : issues.length ≤
    s.references.countP fun r => decide (r.partition = name)) :
    s'.left names + 1 ≤ s.left names := by
  have hreferences : s'.references = s.references := hedited.references
  have hnone : s.signer name = none := ht.unsettled name (Invariant.mem_of_first hqueue)
  have hother {n : String} (hn : n ≠ name) : s'.signer n = s.signer n := hedited.signer_of_ne hn
  have hmem {n : String} := @mem_rest_of_signed _ _ _ hnoted hissues n
  -- The partition leaves the count, as its pair is settled now; what is noted puts no other
  -- signature into question.
  have hstake (n : String) (hn : s'.atStake n = true) : s.atStake n = true := by
    rw [State.atStake_eq_true, hmem] at hn
    by_cases hname : n = name
    · rw [hname, hedited.signer_self] at hn
      exact absurd hn.1 (by simp)
    · rw [State.atStake_eq_true, ← hother hname, hqueue, List.mem_cons, not_or]
      exact ⟨hn.1, fun h => hname (Issue.invalidSignature.inj h), hn.2⟩
  have hcount : names.countP s'.atStake ≤ names.countP s.atStake :=
    List.countP_mono_left fun n _ => hstake n
  -- The references to the partition leave the other count, and there are at least as many as issues
  -- that are noted.
  have hrefs : s.references.countP (fun r => (s'.signer r.partition).isNone) +
      s.references.countP (fun r => decide (r.partition = name)) ≤
        s.references.countP fun r => (s.signer r.partition).isNone := by
    refine countP_add_le (fun r _ hr => ?_) fun r _ hr => ?_
    · by_cases hname : r.partition = name
      · rw [hname, hedited.signer_self] at hr
        cases hr
      · rw [← hother hname]
        exact ⟨hr, decide_eq_false hname⟩
    · rw [of_decide_eq_true hr, hnone]
      rfl
  have hnew := length_foldl_noteIn_le issues rest
  rw [← hnoted] at hnew
  unfold State.left
  rw [hreferences, hqueue, List.length_cons]
  omega

end Signed

/-- **Every issue that is handled counts.** -/
theorem handle (ht : Tally names s) (hqueue : s.queue = issue :: rest)
    (h : ({ s with queue := rest } : State).handle means issue = .ok s') :
    Tally names s' ∧ s'.left names + 1 ≤ s.left names := by
  cases handled_of_handle h with
  | hash _ _ hedited _ hrequeue =>
    exact ⟨ht.replaced hqueue hedited hrequeue,
      ht.left_replaced hqueue (fun _ => nofun) hedited hrequeue⟩
  | chain _ _ hedited _ hrequeue =>
    exact ⟨ht.replaced hqueue hedited hrequeue,
      ht.left_replaced hqueue (fun _ => nofun) hedited hrequeue⟩
  | sign _ hedited _ _ hsame =>
    have hnoted : s'.queue = ([] : List Issue).foldl Findings.noteIn rest := hsame
    have hnone : ∀ issue ∈ ([] : List Issue), ∀ n, issue ≠ .invalidSignature n := nofun
    exact ⟨signed hnoted hnone ht hqueue hedited,
      left_signed hnoted hnone ht hqueue hedited (Nat.zero_le _)⟩
  | @rekey _ _ _ pair refs _ hrefs _ hedited _ _ _ hnoted =>
    -- The issues for the references are about keys, so they put no signature into question.
    have hstale : ∀ issue ∈ refs.map fun r => State.stale pair r.1,
        ∀ n, issue ≠ .invalidSignature n := by
      intro issue hissue n
      obtain ⟨r, -, rfl⟩ := List.mem_map.1 hissue
      exact nofun
    refine ⟨signed hnoted hstale ht hqueue hedited,
      left_signed hnoted hstale ht hqueue hedited ?_⟩
    rw [List.length_map]
    exact State.length_chainReferences_le hrefs

/-- A pair that is settled stays the same. -/
theorem signer_of_handle {pair : KeyPair} (ht : Tally names s) (hqueue : s.queue = issue :: rest)
    (h : ({ s with queue := rest } : State).handle means issue = .ok s')
    (hpair : s.signer name = some pair) : s'.signer name = some pair := by
  -- A signature that is mended had no pair.
  have hother {n : String} (hn : issue = .invalidSignature n) : name ≠ n := by
    rintro rfl
    have hnone := ht.unsettled name (hn ▸ Invariant.mem_of_first hqueue)
    cases hpair.symm.trans hnone
  rw [← hpair]
  cases handled_of_handle h with
  | hash _ _ hedited _ _ => exact hedited.unpop.signer_eq name
  | chain _ _ hedited _ _ => exact hedited.unpop.signer_eq name
  | sign _ hedited _ _ _ => exact hedited.unpop.signer_of_ne (hother rfl)
  | rekey _ _ _ hedited _ _ _ _ => exact hedited.unpop.signer_of_ne (hother rfl)

/-- At the start there is not more to count than issues, records and references. -/
theorem ofVerification (found : Verification) :
    Tally (found.records.map (·.1)) (State.ofVerification found) ∧
      (State.ofVerification found).left (found.records.map (·.1)) ≤
        found.issues.length + found.records.length + found.references.length := by
  rw [Verifier.ofVerification_eq]
  refine ⟨⟨Findings.nodup_foldl_noteIn List.nodup_nil _, fun _ _ => rfl, fun name hname => ?_⟩, ?_⟩
  · exact Entries.isSome_lookup_iff.1 hname
  · have hqueue := length_foldl_noteIn_le found.issues []
    have hnames := List.countP_le_length (l := found.records.map (·.1)) (p := State.atStake
      ⟨found.records, found.references, found.issues.foldl Findings.noteIn [], [], []⟩)
    have hreferences := List.countP_le_length (l := found.references) (p := fun r => (State.signer
      ⟨found.records, found.references, found.issues.foldl Findings.noteIn [], [], []⟩
      r.partition).isNone)
    rw [List.length_nil] at hqueue
    rw [List.length_map] at hnames
    unfold State.left
    dsimp only at hqueue hnames hreferences ⊢
    omega

end Tally

/-- The handling of one issue after the other: which ones were handled, each with the state at whose
head it waited, and the state after that. -/
inductive Run (means : Means) (start : State) : List (State × Issue) → State → Prop
  | start : Run means start [] start
  | step {handled : List (State × Issue)} {s s' : State} {issue : Issue} {rest : List Issue} :
    Run means start handled s → s.queue = issue :: rest →
    ({ s with queue := rest } : State).handle means issue = .ok s' →
    Run means start (handled ++ [(s, issue)]) s'

/-- The partition that gets a new key when an issue is handled. -/
def rekeyed? (means : Means) : State × Issue → Option String
  | (s, .invalidSignature name) =>
    match s.records.lookup name with
    | some record => if (s.findPair means record.image.publicKey).isNone then some name else none
    | none => none
  | _ => none

/-- A partition gets a new key only when its signature is mended. -/
theorem issue_of_rekeyed {moment : State × Issue} {name : String}
    (h : rekeyed? means moment = some name) : moment.2 = .invalidSignature name := by
  obtain ⟨s, issue⟩ := moment
  cases issue with
  | invalidSignature n =>
    unfold rekeyed? at h
    dsimp only at h
    split at h
    · split at h
      · exact congrArg Issue.invalidSignature (Option.some.inj h)
      · cases h
    · cases h
  | invalidPartitionData _ | hashMismatch _ _ _ _ | publicKeyMismatch _ _ _ | other _ _ => cases h

namespace Run

/-- **The run lemma.** What was handled and what is left to handle were counted at the start. A
signature that was handled was handled once, and has a pair since. -/
theorem tally {names : List String} (h : Run means start handled s) (ht : Tally names start) :
    Tally names s ∧ handled.length + s.left names ≤ start.left names ∧
      (∀ name, .invalidSignature name ∈ handled.map (·.2) → (s.signer name).isSome) ∧
      ∀ name, (handled.map (·.2)).count (.invalidSignature name) ≤ 1 := by
  induction h with
  | start => exact ⟨ht, Nat.le_of_eq (Nat.zero_add _), nofun, fun _ => Nat.zero_le 1⟩
  | @step handled s s' issue rest _ hqueue hhandle ih =>
    obtain ⟨hs, hleft, hsettled, honce⟩ := ih
    obtain ⟨hs', hless⟩ := hs.handle hqueue hhandle
    have hkeep (name : String) (hname : (s.signer name).isSome) : (s'.signer name).isSome := by
      obtain ⟨pair, hpair⟩ := Option.isSome_iff_exists.1 hname
      rw [hs.signer_of_handle hqueue hhandle hpair]
      rfl
    refine ⟨hs', ?_, fun name hname => ?_, fun name => ?_⟩
    · rw [List.length_append, List.length_singleton]
      omega
    · rw [List.map_append, List.mem_append] at hname
      rcases hname with hname | hname
      · exact hkeep name (hsettled name hname)
      · obtain rfl := List.mem_singleton.1 hname
        cases handled_of_handle hhandle with
        | sign _ hedited _ _ _ | rekey _ _ _ hedited _ _ _ _ =>
          rw [hedited.signer_self]
          rfl
    · rw [List.map_append, List.count_append, List.map_singleton, List.count_singleton]
      by_cases hissue : issue = .invalidSignature name
      · -- No pair was settled, so the signature was not handled before.
        have hnone := hs.unsettled name (hissue ▸ Invariant.mem_of_first hqueue)
        have hnew : .invalidSignature name ∉ handled.map (·.2) := by
          intro hmem
          have hsome := hsettled name hmem
          rw [hnone] at hsome
          cases hsome
        rw [List.count_eq_zero.2 hnew]
        split <;> omega
      · rw [if_neg (by simpa using hissue)]
        exact honce name

/-- A signature that was handled does not wait again. -/
theorem count_le_one {names : List String} (h : Run means start handled s)
    (ht : Tally names start) (name : String) :
    (handled.map (·.2) ++ s.queue).count (.invalidSignature name) ≤ 1 := by
  obtain ⟨hs, -, hsettled, honce⟩ := h.tally ht
  rw [List.count_append]
  by_cases hmem : .invalidSignature name ∈ s.queue
  · have hnew : .invalidSignature name ∉ handled.map (·.2) := by
      intro hhandled
      have hsome := hsettled name hhandled
      rw [hs.unsettled name hmem] at hsome
      cases hsome
    have hqueue := List.nodup_iff_count_le_one.1 hs.queue (.invalidSignature name)
    rw [List.count_eq_zero.2 hnew]
    omega
  · rw [List.count_eq_zero.2 hmem]
    exact honce name

/-- No partition gets a new key twice. -/
theorem nodup_rekeyed {names : List String} (h : Run means start handled s)
    (ht : Tally names start) : (handled.filterMap (rekeyed? means)).Nodup := by
  obtain ⟨-, -, -, honce⟩ := h.tally ht
  rw [List.nodup_iff_count_le_one]
  intro name
  refine Nat.le_trans ?_ (honce name)
  rw [List.count_filterMap, List.count_eq_countP, List.countP_map]
  refine List.countP_mono_left fun moment _ hmoment => ?_
  rw [beq_iff_eq] at hmoment
  exact beq_iff_eq.2 (issue_of_rekeyed hmoment)

/-- The rest of a queue is worked off after what was handled. -/
theorem drain_eq (h : Run means start handled s) (limit : Nat) :
    start.drain means (handled.length + limit) = s.drain means limit := by
  induction h generalizing limit with
  | start => rw [List.length_nil, Nat.zero_add]
  | step _ hqueue hhandle ih =>
    rw [List.length_append, List.length_singleton, Nat.add_assoc, Nat.add_comm 1, ih]
    exact State.drain_succ_of_handle hqueue hhandle

/-- A repair that handles more issues than it may ends there. -/
theorem drain_of_lt (h : Run means start handled s) (hlimit : limit < handled.length) :
    start.drain means limit = .error (.unrepairable .tooManySteps) := by
  induction h with
  | start => cases hlimit
  | @step handled s s' issue rest hrun hqueue hhandle ih =>
    rw [List.length_append, List.length_singleton] at hlimit
    by_cases hbefore : limit < handled.length
    · exact ih hbefore
    · obtain rfl : limit = handled.length := by omega
      have hdrain := hrun.drain_eq 0
      rw [Nat.add_zero] at hdrain
      rw [hdrain]
      exact State.drain_zero_of_handle hqueue hhandle

/-- Where the handling of issues ends, and what it comes to: no issue waits, the first one cannot be
mended, or too many were handled. -/
inductive Ended (means : Means) (limit : Nat) (handled : List (State × Issue)) (s : State) :
    Except Error State → Prop
  | done : s.queue = [] → Ended means limit handled s (.ok s)
  | failed {issue : Issue} {rest : List Issue} {e : Error} : s.queue = issue :: rest →
    ({ s with queue := rest } : State).handle means issue = .error e →
    Ended means limit handled s (.error e)
  | limited : limit < handled.length →
    Ended means limit handled s (.error (.unrepairable .tooManySteps))

/-- A run ends where it is, unless the next issue is mended. -/
theorem exists_ended_of_next (h : Run means start handled s) (limit total : Nat)
    (hnext : ∀ issue rest next, s.queue = issue :: rest →
      ({ s with queue := rest } : State).handle means issue = .ok next → ∃ handled' s',
        Run means start handled' s' ∧ Ended means total handled' s' (s.drain means limit)) :
    ∃ handled' s', Run means start handled' s' ∧
      Ended means total handled' s' (s.drain means limit) := by
  cases hqueue : s.queue with
  | nil =>
    rw [State.drain_of_nil hqueue]
    exact ⟨handled, s, h, .done hqueue⟩
  | cons issue rest =>
    cases hhandle : ({ s with queue := rest } : State).handle means issue with
    | error e =>
      rw [State.drain_of_error hqueue hhandle]
      exact ⟨handled, s, h, .failed hqueue hhandle⟩
    | ok next => exact hnext issue rest next hqueue hhandle

/-- Wherever a run has come to, it goes on to its end. -/
theorem exists_ended (h : Run means start handled s) (limit : Nat) : ∃ handled' s',
    Run means start handled' s' ∧
      Ended means (handled.length + limit) handled' s' (s.drain means limit) := by
  induction limit generalizing handled s with
  | zero =>
    refine h.exists_ended_of_next 0 _ fun issue rest next hqueue hhandle => ?_
    rw [State.drain_zero_of_handle hqueue hhandle]
    refine ⟨_, next, h.step hqueue hhandle, .limited ?_⟩
    rw [List.length_append]
    exact Nat.lt_succ_self _
  | succ limit ih =>
    refine h.exists_ended_of_next (limit + 1) _ fun issue rest next hqueue hhandle => ?_
    have hrest := ih (h.step hqueue hhandle)
    rw [List.length_append, List.length_singleton, Nat.add_assoc, Nat.add_comm 1] at hrest
    rw [State.drain_succ_of_handle hqueue hhandle]
    exact hrest

/-- From its start a repair goes on to its end. -/
theorem exists_ended_of_start (start : State) (limit : Nat) : ∃ handled s,
    Run means start handled s ∧ Ended means limit handled s (start.drain means limit) := by
  have hstart : Run means start [] start := .start
  have hended := hstart.exists_ended limit
  rwa [List.length_nil, Nat.zero_add] at hended

/-- A repair ends there only if it handles more issues than it may. -/
theorem exists_of_drain
    (hgenerate : ∀ bits cause, means.generate bits ≠ .error (.unrepairable cause))
    (hdrain : start.drain means limit = .error (.unrepairable .tooManySteps)) :
    ∃ handled s, Run means start handled s ∧ limit < handled.length := by
  obtain ⟨handled, s, hrun, hended⟩ := @exists_ended_of_start means start limit
  rw [hdrain] at hended
  cases hended with
  | failed _ hhandle => exact absurd hhandle (State.handle_stepwise hgenerate _ _).1
  | limited hlength => exact ⟨handled, s, hrun, hlength⟩

end Run

/-- The most issues that are handled in the repair of what a verification found. -/
def mostSteps (found : Verification) : Nat :=
  found.issues.length + found.records.length + found.references.length

/-- What is requested in the end does not depend on the number of issues that were handled. -/
theorem rebuild_eq_tooManySteps {limit : Int} :
    rebuild means found limit = .error (.unrepairable .tooManySteps) ↔
      (State.ofVerification found).drain means limit.toNat =
        .error (.unrepairable .tooManySteps) := by
  have hrequest (s : State) (name : String) (pair : Option KeyPair) :
      s.request name pair ≠ .error (.unrepairable .tooManySteps) := by
    intro h
    rcases Outcome.bind_eq_error.1 h with hrecord | ⟨record, -, h₁⟩
    · exact (State.record_stepwise s name).1 hrecord
    · split at h₁ <;> cases h₁
  -- Making the requests has errors of its own, so the limit can only be passed before.
  have hrequests (s : State) (entries : List (String × Option KeyPair)) :
      (entries.mapM fun entry => s.request entry.1 entry.2) ≠
        .error (.unrepairable .tooManySteps) := by
    induction entries with
    | nil => exact nofun
    | cons entry entries ih =>
      intro h
      rw [List.mapM_cons] at h
      rcases Outcome.bind_eq_error.1 h with hfirst | ⟨_, -, h₁⟩
      · exact hrequest s entry.1 entry.2 hfirst
      · rcases Outcome.bind_eq_error.1 h₁ with hrest | ⟨_, -, h₂⟩
        · exact ih hrest
        · cases h₂
  constructor
  · intro h
    rcases Outcome.bind_eq_error.1 h with hdrain | ⟨s, -, h₁⟩
    · exact hdrain
    · exact absurd h₁ (hrequests s s.changed)
  · exact fun h => Outcome.bind_eq_error.2 (.inl h)

/-- **A repair ends after as many issues as there are issues, records and references**, whatever
they are. The handling of issues is a run to one of its ends, and in every run the issues that were
handled and those that wait are no more than that; a signature is among them once at most, and no
partition gets a new key twice. So a limit of that number is never passed; a limit is passed exactly
when an issue is handled, and more of them than the limit is, before there is another failure. The
source of new keys fails with errors of its own. -/
theorem rebuild_bounded
    (hgenerate : ∀ bits cause, means.generate bits ≠ .error (.unrepairable cause)) (limit : Int) :
    (∃ handled s, Run means (.ofVerification found) handled s ∧
      Run.Ended means limit.toNat handled s
        ((State.ofVerification found).drain means limit.toNat)) ∧
    (∀ handled s, Run means (.ofVerification found) handled s →
      handled.length + s.queue.length ≤ mostSteps found ∧
      (∀ name, (handled.map (·.2) ++ s.queue).count (.invalidSignature name) ≤ 1) ∧
      (handled.filterMap (rekeyed? means)).Nodup) ∧
    (mostSteps found ≤ limit →
      rebuild means found limit ≠ .error (.unrepairable .tooManySteps)) ∧
    (rebuild means found limit = .error (.unrepairable .tooManySteps) ↔
      ∃ handled s, Run means (.ofVerification found) handled s ∧ handled ≠ [] ∧
        limit < handled.length) := by
  obtain ⟨htally, hmost⟩ := Tally.ofVerification found
  have hbound {handled : List (State × Issue)} {s : State}
      (hrun : Run means (.ofVerification found) handled s) :
      handled.length + s.queue.length ≤ mostSteps found := by
    obtain ⟨-, hleft, -, -⟩ := hrun.tally htally
    -- What waits is part of what is left, and each issue that was handled has lowered that by one.
    have hqueue : s.queue.length ≤ s.left (found.records.map (·.1)) := by
      unfold State.left
      omega
    unfold mostSteps
    omega
  have hlimit : rebuild means found limit = .error (.unrepairable .tooManySteps) ↔
      ∃ handled s, Run means (.ofVerification found) handled s ∧ handled ≠ [] ∧
        limit < handled.length := by
    rw [rebuild_eq_tooManySteps]
    constructor
    · intro hdrain
      obtain ⟨handled, s, hrun, hlength⟩ := Run.exists_of_drain hgenerate hdrain
      have hpos : 0 < handled.length := by omega
      exact ⟨handled, s, hrun, List.length_pos_iff.1 hpos, by omega⟩
    · rintro ⟨handled, s, hrun, hne, hlength⟩
      have hpos : 0 < handled.length := List.length_pos_iff.2 hne
      exact hrun.drain_of_lt (by omega)
  refine ⟨Run.exists_ended_of_start _ _, fun handled s hrun => ⟨hbound hrun,
    hrun.count_le_one htally, hrun.nodup_rekeyed htally⟩, fun hle herror => ?_, hlimit⟩
  obtain ⟨handled, s, hrun, -, hlength⟩ := hlimit.1 herror
  have hmost := hbound hrun
  omega

/-- The one issue of the chain and those that come of it are no more than the issues, records and
references. -/
theorem rebuild_bounded_chainStore :
    (∀ bits cause, KeyPair.fresh Verifier.freshKeys bits ≠ .error (.unrepairable cause)) ∧
    mostSteps Verifier.chainFound ≤ (4 : Int) ∧
    rebuild ⟨[], KeyPair.fresh Verifier.freshKeys⟩ Verifier.chainFound 4 ≠
      .error (.unrepairable .tooManySteps) := by
  have hgenerate (bits : Nat) (cause : RepairFailure) :
      KeyPair.fresh Verifier.freshKeys bits ≠ .error (.unrepairable cause) :=
    KeyPair.fresh_ne_unrepairable _ _ _
  have hmost : mostSteps Verifier.chainFound ≤ (4 : Int) := by decide
  obtain ⟨-, -, hnever, -⟩ := @rebuild_bounded ⟨[], KeyPair.fresh Verifier.freshKeys⟩
    Verifier.chainFound hgenerate 4
  exact ⟨hgenerate, hmost, hnever hmost⟩

/-- With a limit below zero more issues than the limit are handled from the start, and yet where
nothing was found nothing fails. -/
theorem rebuild_empty_negative :
    ¬(rebuild ⟨[], KeyPair.fresh []⟩ (.empty "vbmeta") (-1) = .error (.unrepairable .tooManySteps) ↔
      ∃ handled s, Run ⟨[], KeyPair.fresh []⟩ (.ofVerification (.empty "vbmeta")) handled s ∧
        (-1 : Int) < handled.length) := by
  intro h
  have herror := h.2 ⟨[], _, .start, by decide⟩
  cases herror

end Repair

end VerifiedBoot
