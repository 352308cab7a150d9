import VerifiedBoot.Proofs.Repair.Steps
import VerifiedBoot.Proofs.Partition.Rewrite

/-!
# What a repair has to bring about

A `Plan` says what the images are that a repair starts from, what each hash and each chain
descriptor has to say in the end, and which images have to verify. `Repair.Invariant` relates a
repair in progress to its plan: whatever is still amiss has an issue in the queue that mends it.

Issues about the key of one chain descriptor may wait in the queue more than once, with different
keys. What counts is the last one, `dueKey`.
-/

namespace VerifiedBoot

namespace Findings

variable {α : Type} [DecidableEq α]

/-- What is noted comes behind what was there before, unless it was there before. -/
theorem foldl_noteIn_eq (xs a : List α) :
    ∃ extra, xs.foldl noteIn a = a ++ extra ∧ ∀ y, y ∈ extra → y ∈ xs ∧ y ∉ a := by
  induction xs generalizing a with
  | nil => exact ⟨[], (List.append_nil a).symm, fun y hy => absurd hy List.not_mem_nil⟩
  | cons x xs ih =>
    obtain ⟨extra, heq, hextra⟩ := ih (noteIn a x)
    rw [List.foldl_cons, heq]
    by_cases hx : x ∈ a
    · have hsame : noteIn a x = a := if_pos hx
      rw [hsame] at hextra ⊢
      exact ⟨extra, rfl, fun y hy => ⟨List.mem_cons_of_mem x (hextra y hy).1, (hextra y hy).2⟩⟩
    · have hmore : noteIn a x = a ++ [x] := if_neg hx
      rw [hmore] at hextra ⊢
      refine ⟨x :: extra, List.append_assoc a [x] extra, fun y hy => ?_⟩
      rcases List.mem_cons.1 hy with rfl | hy
      · exact ⟨List.mem_cons_self, hx⟩
      · obtain ⟨hmem, hnot⟩ := hextra y hy
        exact ⟨List.mem_cons_of_mem x hmem, fun ha => hnot (List.mem_append_left _ ha)⟩

end Findings

namespace Repair

/-- The key that a chain descriptor has once the queue is worked off. -/
def dueKey (holder : String) (index : Nat) (declared : Option PublicKey) (queue : List Issue) :
    Option PublicKey :=
  queue.foldl (fun key issue => match issue with
    | .publicKeyMismatch h i k => if h = holder ∧ i = index then k else key
    | _ => key) declared

section DueKey

variable {holder : String} {index : Nat} {declared key : Option PublicKey}
  {queue rest : List Issue} {issue : Issue}

/-- Whether an issue is not about the key of a chain descriptor. -/
def Apart (holder : String) (index : Nat) (issue : Issue) : Prop :=
  ∀ key, issue ≠ .publicKeyMismatch holder index key

/-- The next issue counts as long as there is no later one. -/
theorem dueKey_cons_self :
    dueKey holder index declared (.publicKeyMismatch holder index key :: rest) =
      dueKey holder index key rest := by
  unfold dueKey
  rw [List.foldl_cons]
  dsimp only
  rw [if_pos ⟨rfl, rfl⟩]

/-- An issue about something else does not count. -/
theorem dueKey_cons_of_apart (h : Apart holder index issue) :
    dueKey holder index declared (issue :: rest) = dueKey holder index declared rest := by
  unfold dueKey
  rw [List.foldl_cons]
  congr 1
  split
  · next h' i k =>
    refine if_neg fun hboth => h k ?_
    rw [hboth.1, hboth.2]
  · rfl

/-- Issues about something else do not count. -/
theorem dueKey_of_apart (h : ∀ issue ∈ queue, Apart holder index issue) :
    dueKey holder index declared queue = declared := by
  induction queue generalizing declared with
  | nil => rfl
  | cons issue rest ih =>
    rw [dueKey_cons_of_apart (h issue List.mem_cons_self)]
    exact ih fun other hother => h other (List.mem_cons_of_mem issue hother)

theorem dueKey_append :
    dueKey holder index declared (queue ++ rest) =
      dueKey holder index (dueKey holder index declared queue) rest :=
  List.foldl_append

/-- If all issues are about the same key and there is one, or the descriptor has this key already,
then it will have it. -/
theorem dueKey_eq (hall : ∀ k, .publicKeyMismatch holder index k ∈ queue → k = key)
    (h : declared = key ∨ .publicKeyMismatch holder index key ∈ queue) :
    dueKey holder index declared queue = key := by
  -- The key that the descriptor has so far is the one, or an issue with it is still to come.
  induction queue generalizing declared with
  | nil =>
    rcases h with h | h
    · exact h
    · exact absurd h List.not_mem_nil
  | cons issue rest ih =>
    have hrest : ∀ k, .publicKeyMismatch holder index k ∈ rest → k = key :=
      fun k hk => hall k (List.mem_cons_of_mem issue hk)
    by_cases hissue : ∃ k, issue = .publicKeyMismatch holder index k
    · obtain ⟨k, rfl⟩ := hissue
      rw [dueKey_cons_self]
      exact ih hrest (.inl (hall k List.mem_cons_self))
    · have hapart : Apart holder index issue := fun k hk => hissue ⟨k, hk⟩
      rw [dueKey_cons_of_apart hapart]
      refine ih hrest (h.imp_right fun hmem => ?_)
      rcases List.mem_cons.1 hmem with heq | hmem
      · exact absurd heq.symm (hapart key)
      · exact hmem

/-- To note issues about something else does not count. -/
theorem dueKey_foldl_noteIn_of_apart {issues : List Issue}
    (h : ∀ issue ∈ issues, Apart holder index issue) :
    dueKey holder index declared (issues.foldl Findings.noteIn queue) =
      dueKey holder index declared queue := by
  obtain ⟨extra, heq, hextra⟩ := Findings.foldl_noteIn_eq issues queue
  rw [heq, dueKey_append]
  exact dueKey_of_apart fun issue hissue => h issue (hextra issue hissue).1

/-- A key that is noted will be the one, unless it waits already with another one behind it. -/
theorem dueKey_foldl_noteIn {issues : List Issue}
    (hall : ∀ k, .publicKeyMismatch holder index k ∈ issues → k = key)
    (hmem : .publicKeyMismatch holder index key ∈ issues)
    (hqueue : .publicKeyMismatch holder index key ∈ queue →
      ∀ k, .publicKeyMismatch holder index k ∈ queue → k = key) :
    dueKey holder index declared (issues.foldl Findings.noteIn queue) = key := by
  -- An issue that waits already is not noted again, and keeps its place.
  by_cases hwaits : .publicKeyMismatch holder index key ∈ queue
  · refine dueKey_eq (fun k hk => ?_) (.inr (Findings.mem_foldl_noteIn.2 (.inl hwaits)))
    rcases Findings.mem_foldl_noteIn.1 hk with hk | hk
    · exact hqueue hwaits k hk
    · exact hall k hk
  · obtain ⟨extra, heq, hextra⟩ := Findings.foldl_noteIn_eq issues queue
    have hlate : .publicKeyMismatch holder index key ∈ extra := by
      have hnoted := (@Findings.mem_foldl_noteIn _ _ issues queue _).2 (.inr hmem)
      rw [heq] at hnoted
      exact (List.mem_append.1 hnoted).resolve_left hwaits
    rw [heq, dueKey_append]
    exact dueKey_eq (fun k hk => hall k (hextra _ hk).1) (.inr hlate)

end DueKey

/-- What a repair starts from and what it has to bring about. -/
structure Plan where
  /-- The record of a partition at the start. -/
  original : String → Option Record
  references : List Reference
  /-- What the hash at an index of the image in a partition has to say. -/
  measured : String → Nat → Measurement → Prop
  /-- The partition that the chain descriptor at an index of the image in a partition names. -/
  chained : String → Nat → String → Prop
  /-- The partitions whose images have to verify if they embed a key. -/
  trusted : String → Prop

/-- What has to be known of a plan for a repair to work towards it. -/
structure Plan.Sound (plan : Plan) : Prop where
  embedded : ∀ {name first}, plan.original name = some first → first.image.signatureValid = true →
    first.image.publicKey.isSome
  measured_unique : ∀ {p i m m'}, plan.measured p i m → plan.measured p i m' → m = m'
  chained_unique : ∀ {p i t t'}, plan.chained p i t → plan.chained p i t' → t = t'
  descriptor : ∀ {p i t}, plan.chained p i t → ∃ first d, plan.original p = some first ∧
    first.image.descriptors[i]? = some (.chain d)
  /-- Every chain descriptor is one of the references. -/
  reference : ∀ {p i t}, plan.chained p i t → ⟨t, p, i⟩ ∈ plan.references
  /-- The chain descriptors among the references name what the reference says. -/
  chained : ∀ {r}, r ∈ plan.references → ∃ i : Nat, r.index = i ∧ ∀ first d,
    plan.original r.holder = some first → first.image.descriptors[i]? = some (.chain d) →
    plan.chained r.holder i r.partition

/-- Whether what was measured fits the fields of a hash. -/
structure Plan.Bounded (plan : Plan) : Prop where
  measured_size : ∀ {p i m}, plan.measured p i m → FitsIn 63 m.size
  measured_digest : ∀ {p i m}, plan.measured p i m → ShortLength m.digest

end Repair

end VerifiedBoot
