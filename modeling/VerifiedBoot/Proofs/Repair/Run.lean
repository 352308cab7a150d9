import VerifiedBoot.Proofs.Repair.Mend
import VerifiedBoot.Proofs.Repair.Sign

/-!
# Working off the queue

Every step of a repair preserves `Repair.Invariant`, so a run does. A queue that can be worked off
holds no issue that no step mends, and it is empty in the end, so that nothing is amiss any more.
-/

namespace VerifiedBoot

namespace Repair

variable {plan : Plan} {s s' : State} {name : String} {issue : Issue}
  {rest : List Issue} {means : Means}

namespace State

/-- Nothing leaves the queue by touching an image. -/
theorem mem_queue_of_touch (h : s.touch name = .ok s') (hmem : issue ∈ s.queue) :
    issue ∈ s'.queue := by
  obtain ⟨record, -, -, -, -, -, hqueue⟩ := touch_eq_ok h
  rw [hqueue, requeue]
  split
  · exact Findings.mem_noteIn.2 (.inl hmem)
  · exact hmem

/-- Nothing leaves the queue by mending an issue. -/
theorem mem_queue_of_handle {other : Issue} (h : s.handle means issue = .ok s')
    (hmem : other ∈ s.queue) : other ∈ s'.queue := by
  cases issue with
  | hashMismatch name index size digest =>
    obtain ⟨⟨record, d⟩, -, h₁⟩ := Outcome.bind_eq_ok.1 h
    -- The descriptor was looked up by its kind; the branch for others would change nothing.
    cases d with
    | hash d => exact mem_queue_of_touch h₁ hmem
    | property _ | hashtree _ | cmdline _ | chain _ | unknown _ =>
      obtain rfl := Except.ok.inj h₁
      exact hmem
  | publicKeyMismatch name index key =>
    obtain ⟨⟨record, d⟩, -, h₁⟩ := Outcome.bind_eq_ok.1 h
    cases d with
    | chain d => exact mem_queue_of_touch h₁ hmem
    | property _ | hashtree _ | cmdline _ | hash _ | unknown _ =>
      obtain rfl := Except.ok.inj h₁
      exact hmem
  | invalidSignature name =>
    rcases mendSignature_eq_ok h with ⟨-, -, -, -, -, -, -, -, -, hqueue⟩ | hrekey
    · rw [hqueue]
      exact hmem
    · obtain ⟨_, _, _, _, -, -, -, -, -, -, hqueue⟩ := rekey_eq_ok hrekey
      rw [hqueue]
      exact Findings.mem_foldl_noteIn.2 (.inl hmem)
  | invalidPartitionData name => cases h
  | other label serial => cases h

/-- A queue that can be worked off is empty, or its first issue can be mended and what waits then
can be worked off. -/
theorem drain_eq_ok {limit : Nat} (h : s.drain means limit = .ok s') :
    (s.queue = [] ∧ s' = s) ∨ ∃ issue rest next left, s.queue = issue :: rest ∧
      ({ s with queue := rest } : State).handle means issue = .ok next ∧ limit = left + 1 ∧
      next.drain means left = .ok s' := by
  unfold drain at h
  split at h
  · next hqueue => exact .inl ⟨hqueue, (Except.ok.inj h).symm⟩
  · next issue rest hqueue =>
    split at h
    · cases h
    · next next hhandle =>
      split at h
      · cases h
      · next left => exact .inr ⟨issue, rest, next, left, hqueue, hhandle, rfl, h⟩

/-- A queue that can be worked off holds only issues that can be mended. -/
theorem invalidPartitionData_notMem_of_drain {limit : Nat} (h : s.drain means limit = .ok s')
    (name : String) : .invalidPartitionData name ∉ s.queue := by
  -- The issue would stay in the queue until it is the first one, which no step mends.
  induction limit using Nat.strongRecOn generalizing s with
  | _ limit ih =>
  intro hmem
  rcases drain_eq_ok h with ⟨hqueue, -⟩ | ⟨issue, rest, next, left, hqueue, hhandle, rfl, hrest⟩
  · rw [hqueue] at hmem
    exact absurd hmem List.not_mem_nil
  · rw [hqueue] at hmem
    rcases List.mem_cons.1 hmem with rfl | hmem
    · cases hhandle
    · exact ih left (Nat.lt_succ_self left) hrest (mem_queue_of_handle hhandle hmem)

/-- What every step preserves, a queue that was worked off preserves, whatever the limit. The queue
is empty then. -/
theorem drain_preserves {motive : State → Prop}
    (hstep : ∀ {s s' : State} {issue : Issue} {rest : List Issue}, motive s →
      s.queue = issue :: rest → ({ s with queue := rest } : State).handle means issue = .ok s' →
      motive s') {limit : Nat} (hs : motive s) (h : s.drain means limit = .ok s') :
    motive s' ∧ s'.queue = [] := by
  -- Each step hands the property on to the next, with one step less to go.
  induction limit using Nat.strongRecOn generalizing s with
  | _ limit ih =>
  rcases drain_eq_ok h with ⟨hqueue, rfl⟩ | ⟨issue, rest, next, left, hqueue, hhandle, rfl, hrest⟩
  · exact ⟨hs, hqueue⟩
  · exact ih left (Nat.lt_succ_self left) (hstep hs hqueue hhandle) hrest

end State

/-- **The step lemma of a repair.** -/
theorem Invariant.handle (hi : Invariant plan s) (hsound : plan.Sound)
    (hqueue : s.queue = issue :: rest)
    (h : ({ s with queue := rest } : State).handle means issue = .ok s') : Invariant plan s' := by
  cases issue with
  | hashMismatch name index size digest => exact hi.mendHash hsound hqueue h
  | publicKeyMismatch name index key => exact hi.mendChain hsound hqueue h
  | invalidSignature name => exact hi.mendSignature hsound hqueue h
  | invalidPartitionData name => cases h
  | other label serial => cases h

/-- **The run lemma of a repair.** Whatever the limit, a queue that was worked off is empty, and the
invariant still holds. -/
theorem Invariant.drain {limit : Nat} (hi : Invariant plan s) (hsound : plan.Sound)
    (h : s.drain means limit = .ok s') : Invariant plan s' ∧ s'.queue = [] :=
  State.drain_preserves (fun hi hqueue hhandle => hi.handle hsound hqueue hhandle) hi h

end Repair

end VerifiedBoot
