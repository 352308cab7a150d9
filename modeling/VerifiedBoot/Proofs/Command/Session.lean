import VerifiedBoot.Command.Run
import VerifiedBoot.Proofs.Command.FileTree

/-!
# What a session ends with

A session goes from state to state until it ends or fails, and the state stays in either case. The
lemmas here take a session apart into its steps. Most steps leave the files alone; a step that fails
before them leaves the files as they were.

A verification in a session is that of the partitions among the files. It also prints its report,
which can be given for everything whose parts can be put into words.
-/

namespace VerifiedBoot

/-- An issue that shows no key can be put into words. -/
theorem Issue.exists_toText {issue : Issue}
    (h : ∀ partition index key, issue ≠ .publicKeyMismatch partition index key) :
    ∃ text, issue.toText = .ok text := by
  cases issue with
  | publicKeyMismatch partition index key => exact absurd rfl (h partition index key)
  | _ => exact ⟨_, rfl⟩

namespace Verification

/-- A report of what was found can be given, if all of it can be put into words. -/
theorem exists_report {found : Verification}
    (hrecords : ∀ entry ∈ found.records, ∃ algorithm, entry.2.image.algorithm = .ok algorithm)
    (hissues : ∀ issue ∈ found.issues, ∃ text, issue.toText = .ok text) :
    ∃ text, found.report false = .ok text := by
  cases hreport : found.report false with
  | ok text => exact ⟨text, rfl⟩
  | error e =>
    -- What fails is a line about a record or a line about an issue.
    rcases Outcome.bind_eq_error.1 hreport with hlines | ⟨lines, -, h₁⟩
    · refine absurd (Outcome.exists_mapM fun entry hentry => ?_)
        (Outcome.exists_error_iff.1 ⟨e, hlines⟩)
      obtain ⟨algorithm, halgorithm⟩ := hrecords entry (List.mem_mergeSort.1 hentry)
      exact ⟨_, Outcome.bind_eq_ok.2 ⟨algorithm, halgorithm, rfl⟩⟩
    · simp only at h₁
      split at h₁
      · cases h₁
      · rcases Outcome.bind_eq_error.1 h₁ with htexts | ⟨texts, -, h₂⟩
        · refine absurd (Outcome.exists_mapM fun issue hissue => ?_)
            (Outcome.exists_error_iff.1 ⟨e, htexts⟩)
          obtain ⟨text, htext⟩ := hissues issue hissue
          exact ⟨_, Outcome.bind_eq_ok.2 ⟨text, htext, rfl⟩⟩
        · cases h₂

end Verification

namespace Session

variable {α β : Type} {x : Session α} {f : α → Session β} {s s' : RunState} {e : Error} {b : β}

/-- What a session ends with from a state, and the state that it leaves behind. -/
def outcome (session : Session α) (state : RunState) : Except Error α × RunState :=
  StateT.run (ExceptT.run session) state

/-- A sequence goes on where its first step ends, if that does not fail. -/
theorem outcome_bind (x : Session α) (f : α → Session β) (s : RunState) :
    (x >>= f).outcome s =
      match x.outcome s with
      | (.ok a, s₁) => (f a).outcome s₁
      | (.error e, s₁) => (.error e, s₁) := by
  change StateT.run (ExceptT.run x >>= ExceptT.bindCont f) s = _
  rw [StateT.run_bind]
  change Id.run (outcome x s >>= fun p => StateT.run (ExceptT.bindCont f p.1) p.2) = _
  obtain ⟨result, s₁⟩ := x.outcome s
  cases result <;> rfl

/-- A sequence goes on behind a first step that ends well. -/
theorem outcome_bind_ok {a : α} (h : x.outcome s = (.ok a, s')) (f : α → Session β) :
    (x >>= f).outcome s = (f a).outcome s' := by
  rw [outcome_bind, h]

@[simp] theorem outcome_ofExcept (x : Except Error α) (s : RunState) :
    (ofExcept x : Session α).outcome s = (x, s) := by
  cases x <;> rfl

theorem outcome_ofExcept_bind {a : α} {value : Except Error α} (h : value = .ok a)
    (f : α → Session β) (s : RunState) :
    (ofExcept value >>= f).outcome s = (f a).outcome s := by
  rw [outcome_bind, outcome_ofExcept, h]

/-- A computation without a state that ends well in a session does so by itself. -/
theorem eq_ok_of_ofExcept {a : α} {x : Except Error α}
    (h : (ofExcept x : Session α).outcome s = (.ok a, s')) : x = .ok a := by
  rw [outcome_ofExcept] at h
  exact (Prod.mk.inj h).1

@[simp] theorem outcome_demand (name : String) (a : α) (s : RunState) :
    (demand name (some a)).outcome s = (.ok a, s) :=
  rfl

/-- A value that was asked for is there. -/
theorem eq_some_of_demand {a : α} {name : String} {value : Option α}
    (h : (demand name value).outcome s = (.ok a, s')) : value = some a := by
  cases value with
  | none => cases h
  | some b => exact congrArg some (Except.ok.inj (Prod.mk.inj h).1)

@[simp] theorem outcome_print (text : String) (s : RunState) :
    (print text).outcome s = (.ok (), { s with output := s.output ++ text }) :=
  rfl

@[simp] theorem outcome_get (s : RunState) : (get : Session RunState).outcome s = (.ok s, s) :=
  rfl

@[simp] theorem outcome_readFile (path : String) (s : RunState) :
    (readFile path).outcome s = (s.tree.read path, s) := by
  rw [readFile, outcome_bind_ok (outcome_get s)]
  exact outcome_ofExcept _ _

theorem outcome_readFile_bind {tree : FileTree} {path : String} {data : Bytes}
    (h : tree.read path = .ok data) (f : Bytes → Session β) (output : String) :
    (readFile path >>= f).outcome ⟨tree, output⟩ = (f data).outcome ⟨tree, output⟩ := by
  rw [outcome_bind, outcome_readFile, h]

/-- A file is written, unless it cannot be. -/
theorem outcome_writeFile (path : String) (data : Bytes) (s : RunState) :
    (writeFile path data).outcome s =
      match s.tree.write path data with
      | .ok tree => (.ok (), { s with tree })
      | .error e => (.error e, s) := by
  rw [writeFile, outcome_bind_ok (outcome_get s), outcome_bind, outcome_ofExcept]
  cases s.tree.write path data <;> rfl

theorem outcome_writeFile_bind {tree tree' : FileTree} {path : String} {data : Bytes}
    (h : tree.write path data = .ok tree') (f : Unit → Session β) (output : String) :
    (writeFile path data >>= f).outcome ⟨tree, output⟩ = (f ()).outcome ⟨tree', output⟩ := by
  rw [outcome_bind, outcome_writeFile, h]

/-- A sequence succeeds if each step does. -/
theorem bind_eq_ok : (x >>= f).outcome s = (.ok b, s') ↔
    ∃ a s₁, x.outcome s = (.ok a, s₁) ∧ (f a).outcome s₁ = (.ok b, s') := by
  rw [outcome_bind]
  obtain ⟨result, s₁⟩ := x.outcome s
  cases result with
  | error e => exact ⟨nofun, nofun⟩
  | ok a =>
    refine ⟨fun h => ⟨a, s₁, rfl, h⟩, ?_⟩
    rintro ⟨a', s₂, h, h'⟩
    obtain ⟨ha, rfl⟩ := Prod.mk.inj h
    obtain rfl := Except.ok.inj ha
    exact h'

/-- A sequence fails at the first step that does. -/
theorem bind_eq_error : (x >>= f).outcome s = (.error e, s') ↔
    x.outcome s = (.error e, s') ∨
      ∃ a s₁, x.outcome s = (.ok a, s₁) ∧ (f a).outcome s₁ = (.error e, s') := by
  rw [outcome_bind]
  obtain ⟨result, s₁⟩ := x.outcome s
  cases result with
  | error e' =>
    refine ⟨fun h => .inl ?_, ?_⟩
    · obtain ⟨he, rfl⟩ := Prod.mk.inj h
      rw [Except.error.inj he]
    · rintro (h | ⟨_, _, h, -⟩)
      · obtain ⟨he, rfl⟩ := Prod.mk.inj h
        rw [Except.error.inj he]
      · cases h
  | ok a =>
    refine ⟨fun h => .inr ⟨a, s₁, rfl, h⟩, ?_⟩
    rintro (h | ⟨a', s₂, h, h'⟩)
    · cases h
    · obtain ⟨ha, rfl⟩ := Prod.mk.inj h
      obtain rfl := Except.ok.inj ha
      exact h'

/-! ### Steps that leave the files alone -/

/-- Whether a session leaves the files alone, however it ends. -/
def KeepsTree (session : Session α) : Prop :=
  ∀ state, (session.outcome state).2.tree = state.tree

theorem keepsTree_ofExcept (x : Except Error α) : KeepsTree (ofExcept x) := fun s => by
  rw [outcome_ofExcept]

theorem keepsTree_get : KeepsTree (get : Session RunState) := fun _ => rfl

theorem keepsTree_print (text : String) : KeepsTree (print text) := fun _ => rfl

theorem keepsTree_demand (name : String) (value : Option α) : KeepsTree (demand name value) :=
  fun s => by cases value <;> rfl

/-- A sequence leaves the files alone if its steps do. -/
theorem KeepsTree.bind (hx : x.KeepsTree) (hf : ∀ a, (f a).KeepsTree) : (x >>= f).KeepsTree := by
  intro s
  have hs := hx s
  rw [outcome_bind]
  generalize x.outcome s = ended at hs ⊢
  obtain ⟨result, s₁⟩ := ended
  cases result with
  | error e => exact hs
  | ok a => exact (hf a s₁).trans hs

/-- A sequence that begins by leaving the files alone ends there, or goes on with the same files. -/
theorem KeepsTree.bind_outcome (hx : x.KeepsTree) (f : α → Session β) (s : RunState) :
    ((x >>= f).outcome s).2.tree = s.tree ∨
      ∃ a s₁, x.outcome s = (.ok a, s₁) ∧ s₁.tree = s.tree ∧
        (x >>= f).outcome s = (f a).outcome s₁ := by
  have hs := hx s
  rw [outcome_bind]
  generalize x.outcome s = ended at hs ⊢
  obtain ⟨result, s₁⟩ := ended
  cases result with
  | error e => exact .inl hs
  | ok a => exact .inr ⟨a, s₁, rfl, hs, rfl⟩

/-- A verification leaves the files alone. -/
theorem keepsTree_verify (suite : Suite) (pattern : Pattern) (root : String) (describe : Bool) :
    (verify suite pattern root describe).KeepsTree := by
  refine keepsTree_get.bind fun state => ?_
  refine (keepsTree_ofExcept _).bind fun found => ?_
  refine (keepsTree_ofExcept _).bind fun text => ?_
  exact (keepsTree_print text).bind fun _ _ => rfl

/-- A verification that succeeds and can be reported ends with what it found. -/
theorem outcome_verify {suite : Suite} {pattern : Pattern} {root : String} {describe : Bool}
    {s : RunState} {found : Verification} {text : String}
    (hverify : Verifier.verify ⟨suite, Verifier.defaultChunkSize⟩
      (storeOf suite s.tree pattern root) root = .ok found)
    (hreport : found.report describe = .ok text) :
    (verify suite pattern root describe).outcome s =
      (.ok found, { s with output := s.output ++ text }) := by
  rw [verify, outcome_bind_ok (outcome_get s), outcome_ofExcept_bind hverify,
    outcome_ofExcept_bind hreport, outcome_bind_ok (outcome_print text s)]
  rfl

/-- What a verification in a session ends with is that of the files. -/
theorem verify_of_outcome {suite : Suite} {pattern : Pattern} {root : String} {describe : Bool}
    {found : Verification}
    (h : (verify suite pattern root describe).outcome s = (.ok found, s')) :
    Verifier.verify ⟨suite, Verifier.defaultChunkSize⟩ (storeOf suite s.tree pattern root) root =
      .ok found := by
  obtain ⟨state, s₁, hget, h₁⟩ := bind_eq_ok.1 h
  obtain ⟨hstate, -⟩ := Prod.mk.inj hget
  obtain rfl := Except.ok.inj hstate
  obtain ⟨found', s₂, hverify, h₂⟩ := bind_eq_ok.1 h₁
  obtain ⟨text, s₃, -, h₃⟩ := bind_eq_ok.1 h₂
  obtain ⟨⟨⟩, s₄, -, h₄⟩ := bind_eq_ok.1 h₃
  obtain rfl := Except.ok.inj (Prod.mk.inj h₄).1
  exact eq_ok_of_ofExcept hverify

end Session

end VerifiedBoot
